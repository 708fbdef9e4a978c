import Mathlib
import JvmAssembler.Proofs.IntegerWords

/-!
# Code that changes the local variables

The code of statements is left by its end or through a label, with changed local
variables; or it returns; or it goes on for as long as one likes.  Code realizes
an outcome of evaluation if it ends in the corresponding way: where a loop was
stopped after so many rounds, the code has a run of at least as many steps.

Main statement: the code of a loop, whose rounds realize the outcomes of its
body, realizes the outcome of the loop.
-/

namespace JvmAssembler

/-! ## Endings -/

/-- How a run of code ends. -/
inductive Ending where
  /-- The code is left through a label or by its end. -/
  | exits (exit : Option Label) (store : Store)
  | returns (value : Value)
  /-- The run may go on. -/
  | lasts

/-- The machine stands where code with `rest` after it ends, above these
operands. -/
def Ending.IsAt (program rest : List Instr) (stack : List Value) (machine : Machine) :
    Ending → Prop
  | .exits exit store => machine = ⟨exitPoint program rest exit, stack, store⟩
  | .returns value => machine.point = .done (some value)
  | .lasts => True

/-- The code is not left by its end. -/
def Ending.Leaves : Ending → Prop
  | .exits none _ => False
  | _ => True

/-- The machine has a run of at least so many steps that ends like this. -/
def Machine.Ends (machine : Machine) (program rest : List Instr) (stack : List Value)
    (least : Nat) (ending : Ending) : Prop :=
  ∃ trace last, Exec program machine trace last ∧ least ≤ trace.length ∧
    ending.IsAt program rest stack last

/-- A run can be put in front. -/
theorem Machine.Ends.after {machine middle : Machine} {program rest trace : List Instr}
    {stack : List Value} {least : Nat} {ending : Ending}
    (ends : middle.Ends program rest stack least ending)
    (run : Exec program machine trace middle) :
    machine.Ends program rest stack (trace.length + least) ending := by
  obtain ⟨trace', last, run', enough, isAt⟩ := ends
  refine ⟨trace ++ trace', last, run.trans run', ?_, isAt⟩
  rw [List.length_append]
  exact Nat.add_le_add_left enough _

theorem Machine.Ends.mono {machine : Machine} {program rest : List Instr} {stack : List Value}
    {least least' : Nat} {ending : Ending} (ends : machine.Ends program rest stack least ending)
    (fewer : least' ≤ least) : machine.Ends program rest stack least' ending := by
  obtain ⟨trace, last, run, enough, isAt⟩ := ends
  exact ⟨trace, last, run, fewer.trans enough, isAt⟩

/-- Wherever the code stands, it has a run of at least so many steps that ends
like this. -/
def Takes (code : List Instr) (store : Store) (least : Nat) (ending : Ending) : Prop :=
  ∀ ⦃program rest⦄, Within program code rest → ∀ stack,
    (Machine.mk (.code (code ++ rest)) stack store).Ends program rest stack least ending

namespace Takes

variable {code code' loads : List Instr} {store middle after : Store} {least : Nat}
variable {ending : Ending} {label : Label} {value : Value} {setting : Setting} {ty : JType}

theorem of_runs {exit : Option Label} (runs : Runs setting code [] loads exit []) :
    Takes code setting.store 0 (.exits exit setting.store) := by
  intro program rest within stack
  obtain ⟨trace, run, -⟩ := runs within stack
  exact ⟨trace, _, run, Nat.zero_le _, rfl⟩

theorem mono {least' : Nat} (takes : Takes code store least ending) (fewer : least' ≤ least) :
    Takes code store least' ending :=
  fun _ _ within stack => (takes within stack).mono fewer

theorem append {skipped : Nat} (first : Takes code store skipped (.exits none middle))
    (second : Takes code' middle least ending) :
    Takes (code ++ code') store (skipped + least) ending := by
  intro program rest within stack
  obtain ⟨trace, _, run, enough, rfl⟩ := first within.left stack
  rw [List.append_assoc]
  exact ((second within.right stack).after run).mono (Nat.add_le_add_right enough _)

theorem leave (takes : Takes code store least ending) (leaves : ending.Leaves)
    (code' : List Instr) : Takes (code ++ code') store least ending := by
  intro program rest within stack
  obtain ⟨trace, last, run, enough, ends⟩ := takes within.left stack
  rw [List.append_assoc]
  refine ⟨trace, last, run, enough, ?_⟩
  cases ending with
  | exits exit store =>
      cases exit with
      | none => exact leaves.elim
      | some target => exact ends
  | returns value => exact ends
  | lasts => trivial

/-- Code after it that every run passes through changes nothing. -/
theorem through (takes : Takes code store least ending)
    (passes : ∀ store, Takes code' store 0 (.exits none store)) :
    Takes (code ++ code') store least ending := by
  cases ending with
  | exits exit after =>
      cases exit with
      | none => exact takes.append (passes after)
      | some target => exact takes.leave trivial code'
  | returns value => exact takes.leave trivial code'
  | lasts => exact takes.leave trivial code'

theorem of_label (label : Label) (store : Store) :
    Takes [.label label] store 0 (.exits none store) :=
  of_runs (Runs.of_label label [] : Runs ⟨false, store, fun _ => True⟩ _ _ _ _ _)

/-- Code that branches to a label placed at its end falls through. -/
theorem rejoin (takes : Takes code store least (.exits (some label) after)) :
    Takes (code ++ [.label label]) store least (.exits none after) := by
  intro program rest within stack
  obtain ⟨trace, _, run, enough, rfl⟩ := takes within.left stack
  have atLabel : Within program [.label label] rest := within.right
  rw [exitPoint_some, atLabel.destination_eq] at run
  rw [List.append_assoc]
  exact ⟨trace, _, run, enough, rfl⟩

/-- A jump is a step. -/
theorem of_jump (label : Label) (store : Store) :
    Takes [.jump .goto label] store 1 (.exits (some label) store) :=
  fun _ _ _ _ => ⟨[.jump .goto label], _, .step rfl (.refl _), le_rfl, rfl⟩

/-- The instruction that takes the value on top to a local slot. -/
theorem stored (notVoid : ty.isVoid = false) (slot : Slot)
    (runs : Runs setting code [] loads none [value]) (isValue : value.category = ty.category) :
    Takes (code ++ [.var (.storeOf ty) slot]) setting.store 0
      (.exits none (setting.store.set slot value)) := by
  have family : (Opcode.iload ≤ Opcode.storeOf ty && Opcode.storeOf ty ≤ Opcode.aload) = false ∧
      (Opcode.istore ≤ Opcode.storeOf ty && Opcode.storeOf ty ≤ Opcode.astore) = true ∧
      Opcode.familyCategory (Opcode.storeOf ty - Opcode.istore) = ty.category :=
    JType.of_value notVoid
      (fun code c => (Opcode.iload ≤ Opcode.istore + Opcode.truncate code &&
          Opcode.istore + Opcode.truncate code ≤ Opcode.aload) = false ∧
        (Opcode.istore ≤ Opcode.istore + Opcode.truncate code &&
          Opcode.istore + Opcode.truncate code ≤ Opcode.astore) = true ∧
        Opcode.familyCategory (Opcode.istore + Opcode.truncate code - Opcode.istore) = c)
      (fun p => by cases p <;> exact ⟨rfl, rfl, rfl⟩) ⟨rfl, rfl, rfl⟩
  intro program rest within stack
  obtain ⟨trace, run, -⟩ := runs within.left stack
  have acts : (Instr.var (.storeOf ty) slot).act ([value] ++ stack) setting.store =
      some (.go stack (setting.store.set slot value)) := by
    simp [Instr.act, family, isValue]
  obtain ⟨trace', step, -⟩ : Reaches false program ⟨.code (_ :: rest), _, _⟩ _ _ :=
    Reaches.of_go acts
  rw [List.append_assoc]
  exact ⟨_, _, run.trans step, Nat.zero_le _, rfl⟩

/-- The instruction that returns the value on top. -/
theorem returned (notVoid : ty.isVoid = false) (runs : Runs setting code [] loads none [value])
    (isValue : value.category = ty.category) :
    Takes (code ++ [.op (.returnOf ty)]) setting.store 0 (.returns value) := by
  have family : (Opcode.returnOf ty).calculation? = none ∧ Opcode.returnOf ty ≠ .returnVoid ∧
      (Opcode.ireturn ≤ Opcode.returnOf ty && Opcode.returnOf ty < Opcode.returnVoid) = true ∧
      Opcode.familyCategory (Opcode.returnOf ty - Opcode.ireturn) = ty.category :=
    JType.of_value notVoid
      (fun code c => (Opcode.ireturn + Opcode.truncate code).calculation? = none ∧
        Opcode.ireturn + Opcode.truncate code ≠ .returnVoid ∧
        (Opcode.ireturn ≤ Opcode.ireturn + Opcode.truncate code &&
          Opcode.ireturn + Opcode.truncate code < Opcode.returnVoid) = true ∧
        Opcode.familyCategory (Opcode.ireturn + Opcode.truncate code - Opcode.ireturn) = c)
      (fun p => by cases p <;> exact ⟨rfl, by decide, rfl, rfl⟩) ⟨rfl, by decide, rfl, rfl⟩
  intro program rest within stack
  obtain ⟨trace, run, -⟩ := runs within.left stack
  have acts : (Instr.op (.returnOf ty)).act ([value] ++ stack) setting.store =
      some (.finish (some value)) := by
    simp [Instr.act, family, isValue]
  have step : Exec program ⟨.code (.op (.returnOf ty) :: rest), [value] ++ stack, setting.store⟩
      [.op (.returnOf ty)] ⟨.done (some value), [], setting.store⟩ :=
    .step (by simp only [Machine.step?, acts, Option.map_some]) (.refl _)
  rw [List.append_assoc]
  exact ⟨_, _, run.trans step, Nat.zero_le _, rfl⟩

end Takes

/-! ## Outcomes -/

/-- The outcome is realized by what `reaches` describes: where evaluation goes
on, the code is left through `exit` after `least` steps or more.  Results are in
the range of their type. -/
def IntOutcome.Realized (result : IntType) (bound : Nat) (related : IntEnv → Store → Prop)
    (reaches : Nat → Ending → Prop) (least : Nat) (exit : Option Label) : IntOutcome → Prop
  | .next env => ∃ after, related env after ∧ reaches least (.exits exit after)
  | .returned n => result.Contains n ∧ reaches 0 (.returns (result.value n))
  | .exhausted => reaches bound .lasts

namespace IntOutcome.Realized

variable {result : IntType} {bound least : Nat} {related related' : IntEnv → Store → Prop}
variable {reaches reaches' : Nat → Ending → Prop} {exit : Option Label} {outcome : IntOutcome}
variable {code code' : List Instr} {store middle : Store} {label : Label}

theorem imp (realized : outcome.Realized result bound related reaches least exit)
    (implies : ∀ ⦃least ending⦄, reaches least ending → reaches' least ending) :
    outcome.Realized result bound related reaches' least exit := by
  cases outcome with
  | next env =>
      obtain ⟨after, holds, reached⟩ := realized
      exact ⟨after, holds, implies reached⟩
  | returned n => exact ⟨realized.1, implies realized.2⟩
  | exhausted => exact implies realized

theorem before (realized : outcome.Realized result bound related (Takes code' middle) least exit)
    (first : Takes code store 0 (.exits none middle)) :
    outcome.Realized result bound related (Takes (code ++ code') store) least exit :=
  realized.imp fun _ _ reached => by simpa using first.append reached

theorem through (realized : outcome.Realized result bound related (Takes code store) least exit)
    (passes : ∀ store, Takes code' store 0 (.exits none store)) :
    outcome.Realized result bound related (Takes (code ++ code') store) least exit :=
  realized.imp fun _ _ reached => reached.through passes

/-- A jump follows where evaluation goes on. -/
theorem jump (realized : outcome.Realized result bound related (Takes code store) 0 none)
    (label : Label) :
    outcome.Realized result bound related (Takes (code ++ [.jump .goto label]) store) 1
      (some label) := by
  cases outcome with
  | next env =>
      obtain ⟨after, holds, reached⟩ := realized
      exact ⟨after, holds, reached.append (.of_jump label after)⟩
  | returned n => exact ⟨realized.1, realized.2.leave trivial _⟩
  | exhausted => exact Takes.leave realized trivial _

theorem fewer (realized : outcome.Realized result bound related (Takes code store) least exit) :
    outcome.Realized result bound related (Takes code store) 0 exit := by
  cases outcome with
  | next env =>
      obtain ⟨after, holds, reached⟩ := realized
      exact ⟨after, holds, reached.mono (Nat.zero_le least)⟩
  | returned n => exact realized
  | exhausted => exact realized

/-- What is left through a label does not reach what follows. -/
theorem leave
    (realized : outcome.Realized result bound related (Takes code store) least (some label))
    (code' : List Instr) :
    outcome.Realized result bound related (Takes (code ++ code') store) least (some label) := by
  cases outcome with
  | next env =>
      obtain ⟨after, holds, reached⟩ := realized
      exact ⟨after, holds, reached.leave trivial code'⟩
  | returned n => exact ⟨realized.1, realized.2.leave trivial _⟩
  | exhausted => exact Takes.leave realized trivial _

theorem rejoin
    (realized : outcome.Realized result bound related (Takes code store) least (some label)) :
    outcome.Realized result bound related (Takes (code ++ [.label label]) store) least none := by
  cases outcome with
  | next env =>
      obtain ⟨after, holds, reached⟩ := realized
      exact ⟨after, holds, reached.rejoin⟩
  | returned n => exact ⟨realized.1, realized.2.leave trivial _⟩
  | exhausted => exact Takes.leave realized trivial _

/-- Where evaluation goes on from states that are also related otherwise. -/
theorem weaken (realized : outcome.Realized result bound related reaches least exit)
    (weaker : ∀ ⦃env store⦄, related env store → related' env store) :
    outcome.Realized result bound related' reaches least exit := by
  cases outcome with
  | next env =>
      obtain ⟨after, holds, reached⟩ := realized
      exact ⟨after, weaker holds, reached⟩
  | returned n => exact realized
  | exhausted => exact realized

/-- Evaluation does not go on where no states are related. -/
theorem of_ended (realized : outcome.Realized result bound related reaches least exit)
    (ended : ∀ ⦃env store⦄, ¬related env store) (least' : Nat) (exit' : Option Label) :
    outcome.Realized result bound related' reaches least' exit' := by
  cases outcome with
  | next env =>
      obtain ⟨after, holds, -⟩ := realized
      exact (ended holds).elim
  | returned n => exact realized
  | exhausted => exact realized

/-- What happens at the end of a scope. -/
theorem leaving {env : IntEnv}
    (realized : outcome.Realized result bound related reaches least exit)
    (leaves : ∀ ⦃inner store⦄, related inner store →
      related' (inner.drop (inner.length - env.length)) store) :
    (outcome.leaving env).Realized result bound related' reaches least exit := by
  cases outcome with
  | next inner =>
      obtain ⟨after, holds, reached⟩ := realized
      exact ⟨after, leaves holds, reached⟩
  | returned n => exact realized
  | exhausted => exact realized

end IntOutcome.Realized

/-! ## Loops -/

/-- As `Takes`, for code that stands after `before`. -/
def TakesAfter (before code : List Instr) (store : Store) (least : Nat) (ending : Ending) : Prop :=
  ∀ ⦃program rest⦄, Within program (before ++ code) rest → ∀ stack,
    (Machine.mk (.code (code ++ rest)) stack store).Ends program rest stack least ending

namespace TakesAfter

variable {start : Label} {store : Store} {least least' : Nat} {ending : Ending}

/-- The label at the start of a loop is passed. -/
theorem enter {code : List Instr} (takes : TakesAfter [.label start] code store least ending) :
    Takes (.label start :: code) store least ending := by
  intro program rest within stack
  obtain ⟨trace, run, -⟩ : Reaches false program ⟨.code (.label start :: (code ++ rest)), stack,
      store⟩ _ _ := Reaches.of_go rfl
  exact ((takes within stack).after run).mono (Nat.le_add_left _ _)

theorem of_takes {code : List Instr} (takes : Takes code store least ending)
    (before : List Instr) : TakesAfter before code store least ending :=
  fun _ _ within stack => takes within.right stack

theorem mono {before code : List Instr} (takes : TakesAfter before code store least ending)
    (fewer : least' ≤ least) : TakesAfter before code store least' ending :=
  fun _ _ within stack => (takes within stack).mono fewer

end TakesAfter

/-- A round that goes back to the start is followed by another one. -/
theorem Takes.again {start : Label} {inner code : List Instr} {store after : Store}
    {least least' : Nat} {ending : Ending}
    (round : Takes inner store least (.exits (some start) after))
    (more : TakesAfter [.label start] (inner ++ code) after least' ending) :
    TakesAfter [.label start] (inner ++ code) store (least + least') ending := by
  intro program rest within stack
  have inside : Within program inner (code ++ rest) := within.right.left
  obtain ⟨trace, _, run, enough, rfl⟩ := round inside stack
  rw [exitPoint_some, (show Within program (.label start :: (inner ++ code)) rest from
    within).destination_eq] at run
  rw [List.append_assoc] at run ⊢
  have onward := more within stack
  rw [List.append_assoc] at onward
  exact (onward.after run).mono (Nat.add_le_add_right enough _)

section

variable {result : IntType} {bound : Nat} {heads related : IntEnv → Store → Prop}
variable {cond : IntEnv → Option Bool} {body : IntEnv → Option IntOutcome}
variable {start stop : Label} {inner : List Instr}

/-- What the code of one round does: it leaves the loop, or realizes the outcome
of the body and goes back to the start. -/
def RealizesRound (result : IntType) (bound : Nat) (heads related : IntEnv → Store → Prop)
    (cond : IntEnv → Option Bool) (body : IntEnv → Option IntOutcome) (start stop : Label)
    (inner : List Instr) : Prop :=
  ∀ ⦃env store⦄, heads env store → ∃ holds, cond env = some holds ∧
    (holds = false → related env store ∧ Takes inner store 0 (.exits (some stop) store)) ∧
    (holds = true → ∃ outcome, body env = some outcome ∧
      outcome.Realized result bound heads (Takes inner store) 1 (some start))

/-- By induction on the number of rounds: each makes a step at least. -/
theorem RealizesRound.rounds
    (round : RealizesRound result bound heads related cond body start stop inner) {count : Nat}
    (few : count ≤ bound) {env : IntEnv} {store : Store} (atHead : heads env store) :
    ∃ outcome, rounds cond body count env = some outcome ∧
      outcome.Realized result count related
        (TakesAfter [.label start] (inner ++ [.label stop]) store) 0 none := by
  induction count generalizing env store with
  | zero =>
      exact ⟨.exhausted, rfl, fun _ _ _ _ => ⟨[], _, .refl _, le_rfl, trivial⟩⟩
  | succ count ih =>
      obtain ⟨holds, isCond, leaves, continues⟩ := round atHead
      cases holds with
      | false =>
          obtain ⟨isRelated, takes⟩ := leaves rfl
          exact ⟨.next env, by simp [JvmAssembler.rounds, isCond], store, isRelated,
            .of_takes takes.rejoin _⟩
      | true =>
          obtain ⟨outcome, isOutcome, realized⟩ := continues rfl
          cases outcome with
          | next env' =>
              obtain ⟨after, atHead', takes⟩ := realized
              obtain ⟨outcome, isOutcome', realized'⟩ := ih (by omega) atHead'
              refine ⟨outcome, by simp [JvmAssembler.rounds, isCond, isOutcome, isOutcome'], ?_⟩
              cases outcome with
              | next last =>
                  obtain ⟨ends, isRelated, reached⟩ := realized'
                  exact ⟨ends, isRelated, (takes.again reached).mono (Nat.zero_le _)⟩
              | returned n => exact ⟨realized'.1, (takes.again realized'.2).mono (Nat.zero_le _)⟩
              | exhausted => exact (takes.again realized').mono (Nat.add_comm 1 count).ge
          | returned n =>
              exact ⟨.returned n, by simp [JvmAssembler.rounds, isCond, isOutcome], realized.1,
                .of_takes (realized.2.leave trivial _) _⟩
          | exhausted =>
              exact ⟨.exhausted, by simp [JvmAssembler.rounds, isCond, isOutcome],
                (TakesAfter.of_takes (Takes.leave realized trivial _) _).mono few⟩

theorem RealizesRound.loop
    (round : RealizesRound result bound heads related cond body start stop inner)
    {env : IntEnv} {store : Store} (atHead : heads env store) :
    ∃ outcome, JvmAssembler.rounds cond body bound env = some outcome ∧
      outcome.Realized result bound related
        (Takes (.label start :: (inner ++ [.label stop])) store) 0 none := by
  obtain ⟨outcome, isOutcome, realized⟩ := round.rounds le_rfl atHead
  exact ⟨outcome, isOutcome, realized.imp fun _ _ reached => reached.enter⟩

end

end JvmAssembler
