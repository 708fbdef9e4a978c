import Mathlib
import JvmAssembler.Proofs.BranchFlow
import JvmAssembler.Proofs.Machine

/-!
# What written code does

Code for a value pushes it; code for a condition goes to a label or falls
through and leaves the stack as it was.  Both are said for code that stands
anywhere in a program, with any operands below its own, so that code is put
together by putting together its runs.
-/

namespace JvmAssembler

/-- Instructions that push a value and take nothing. -/
def Instr.isLoad (instr : Instr) : Bool :=
  instr.effect?.any fun effect => effect.takes.isEmpty && effect.leaves.length == 1

/-- The loads among executed instructions, if they are watched. -/
def watched (watching : Bool) (trace : List Instr) : List Instr :=
  if watching then trace.filter Instr.isLoad else []

@[simp]
theorem watched_nil (watching : Bool) : watched watching [] = [] := by
  cases watching <;> rfl

theorem watched_append (watching : Bool) (trace trace' : List Instr) :
    watched watching (trace ++ trace') = watched watching trace ++ watched watching trace' := by
  cases watching <;> simp [watched]

theorem watched_of_not_isLoad {instr : Instr} (watching : Bool) (noLoad : instr.isLoad = false) :
    watched watching [instr] = [] := by
  cases watching <;> simp [watched, noLoad]

theorem watched_of_pushes {instr : Instr} {c : Category} (pushes : instr.effect? = some ⟨[], [c]⟩) :
    watched true [instr] = [instr] := by
  simp [watched, Instr.isLoad, pushes]

/-- A run from one state to another in which these loads are watched, in this
order. -/
def Reaches (watching : Bool) (program : List Instr) (start : Machine) (loads : List Instr)
    (last : Machine) : Prop :=
  ∃ trace, Exec program start trace last ∧ watched watching trace = loads

namespace Reaches

variable {watching : Bool} {program rest loads loads' : List Instr} {start middle last : Machine}
variable {instr : Instr} {stack stack' : List Value} {store store' : Store} {target : Label}

theorem refl (machine : Machine) : Reaches watching program machine [] machine :=
  ⟨[], .refl machine, watched_nil watching⟩

theorem trans (first : Reaches watching program start loads middle)
    (second : Reaches watching program middle loads' last) :
    Reaches watching program start (loads ++ loads') last := by
  obtain ⟨trace, run, rfl⟩ := first
  obtain ⟨trace', run', rfl⟩ := second
  exact ⟨trace ++ trace', run.trans run', watched_append watching trace trace'⟩

theorem of_go (acts : instr.act stack store = some (.go stack' store')) :
    Reaches watching program ⟨.code (instr :: rest), stack, store⟩ (watched watching [instr])
      ⟨.code rest, stack', store'⟩ :=
  ⟨[instr], .step (by simp [Machine.step?, acts]) (.refl _), rfl⟩

theorem of_jump (acts : instr.act stack store = some (.jump target stack')) :
    Reaches watching program ⟨.code (instr :: rest), stack, store⟩ (watched watching [instr])
      ⟨destination program target, stack', store⟩ :=
  ⟨[instr], .step (by simp [Machine.step?, acts]) (.refl _), rfl⟩

end Reaches

/-- What is fixed while code for values and conditions is generated and run:
whether loads are watched, the local variables, and a property of the generator's
state. -/
structure Setting where
  watching : Bool
  store : Store
  inv : State → Prop

/-- Where code with `rest` after it is left: through a label or by its end. -/
def exitPoint (program rest : List Instr) : Option Label → Point
  | some target => destination program target
  | none => .code rest

@[simp]
theorem exitPoint_some (program rest : List Instr) (target : Label) :
    exitPoint program rest (some target) = destination program target :=
  rfl

@[simp]
theorem exitPoint_none (program rest : List Instr) : exitPoint program rest none = .code rest :=
  rfl

/-- Wherever the code stands, it replaces the operands `before` by `after`, keeps
those below, and goes to `exit`. -/
def Runs (setting : Setting) (code : List Instr) (before : List Value) (loads : List Instr)
    (exit : Option Label) (after : List Value) : Prop :=
  ∀ ⦃program rest⦄, Within program code rest → ∀ stack,
    Reaches setting.watching program ⟨.code (code ++ rest), before ++ stack, setting.store⟩ loads
      ⟨exitPoint program rest exit, after ++ stack, setting.store⟩

namespace Runs

variable {setting : Setting} {code code' loads loads' : List Instr} {exit : Option Label}
variable {before middle after below : List Value} {instr : Instr}

theorem nil (operands : List Value) : Runs setting [] operands [] none operands :=
  fun _ _ _ _ => Reaches.refl _

theorem append (first : Runs setting code before loads none middle)
    (second : Runs setting code' middle loads' exit after) :
    Runs setting (code ++ code') before (loads ++ loads') exit after := by
  intro program rest within stack
  have run := first within.left stack
  rw [← List.append_assoc] at run
  exact run.trans (second within.right stack)

theorem frame (runs : Runs setting code before loads exit after) (below : List Value) :
    Runs setting code (before ++ below) loads exit (after ++ below) := by
  intro program rest within stack
  simpa using runs within (below ++ stack)

/-- Code that is left through a label does not reach what follows it. -/
theorem leave {target : Label} (runs : Runs setting code before loads (some target) after)
    (code' : List Instr) : Runs setting (code ++ code') before loads (some target) after := by
  intro program rest within stack
  simpa using runs within.left stack

theorem of_go
    (acts : ∀ stack, instr.act (before ++ stack) setting.store =
      some (.go (after ++ stack) setting.store)) :
    Runs setting [instr] before (watched setting.watching [instr]) none after :=
  fun _ _ _ stack => Reaches.of_go (acts stack)

theorem of_unwatched (noLoad : instr.isLoad = false)
    (acts : ∀ stack, instr.act (before ++ stack) setting.store =
      some (.go (after ++ stack) setting.store)) :
    Runs setting [instr] before [] none after := by
  have runs := of_go acts
  rwa [watched_of_not_isLoad _ noLoad] at runs

theorem of_calculation {op : Opcode} {calculation : Calculation}
    (isCalculation : op.calculation? = some calculation) (noLoad : (Instr.op op).isLoad = false)
    (applied : ∀ stack, calculation.apply (before ++ stack) = some (after ++ stack)) :
    Runs setting [.op op] before [] none after :=
  of_unwatched noLoad fun stack => by simp [Instr.act, isCalculation, applied]

theorem of_branch {op : Opcode} {test : Test} {target : Label} {taken : Bool}
    (isTest : op.test? = some test)
    (applied : ∀ stack, test.apply (before ++ stack) = some (taken, after ++ stack)) :
    Runs setting [.jump op target] before [] (if taken then some target else none) after := by
  have noLoad : (Instr.jump op target).isLoad = false := by
    cases takes : op.branchTakes? <;> simp [Instr.isLoad, Instr.effect?, takes]
  intro program rest within stack
  cases taken with
  | true =>
      have acts : (Instr.jump op target).act (before ++ stack) setting.store =
          some (.jump target (after ++ stack)) := by
        simp [Instr.act, isTest, applied]
      have run : Reaches setting.watching program ⟨.code (_ :: rest), _, _⟩ _ _ :=
        Reaches.of_jump acts
      rw [watched_of_not_isLoad _ noLoad] at run
      exact run
  | false =>
      have acts : ∀ stack, (Instr.jump op target).act (before ++ stack) setting.store =
          some (.go (after ++ stack) setting.store) := fun stack => by
        simp [Instr.act, isTest, applied]
      exact of_unwatched noLoad acts within stack

theorem of_label (label : Label) (operands : List Value) :
    Runs setting [.label label] operands [] none operands :=
  of_unwatched rfl fun _ => rfl

/-- Code that branches to a label placed at its end falls through. -/
theorem rejoin {label : Label} (runs : Runs setting code before loads (some label) after) :
    Runs setting (code ++ [.label label]) before loads none after := by
  intro program rest within stack
  have arrived := runs within.left stack
  have atLabel : Within program [.label label] rest := within.right
  rw [exitPoint_some, atLabel.destination_eq] at arrived
  simpa using arrived

theorem of_constant (literal : Literal) :
    Runs setting [Gen.constantInstr literal] []
      (watched setting.watching [Gen.constantInstr literal]) none [Value.ofLiteral literal] := by
  apply of_go
  intro stack
  cases literal with
  | int value =>
      dsimp only [Gen.constantInstr]
      split
      · rename_i small
        rw [← Int32.ofInt_toInt value]
        generalize value.toInt = n at small ⊢
        obtain ⟨low, high⟩ := small
        interval_cases n <;> rfl
      · repeat' split
        all_goals rfl
  | long value =>
      dsimp only [Gen.constantInstr]
      repeat' split
      all_goals rename_i isValue
      · subst isValue
        rfl
      · subst isValue
        rfl
      · rfl
  | float value =>
      obtain ⟨bits⟩ := value
      by_cases zero : bits = 0x00000000
      · subst zero
        rfl
      by_cases one : bits = 0x3f800000
      · subst one
        rfl
      by_cases two : bits = 0x40000000
      · subst two
        rfl
      simp [Gen.constantInstr, Binary32.compactIndex?, zero, one, two, Instr.act]
  | double value =>
      obtain ⟨bits⟩ := value
      by_cases zero : bits = 0x0000000000000000
      · subst zero
        rfl
      by_cases one : bits = 0x3ff0000000000000
      · subst one
        rfl
      simp [Gen.constantInstr, Binary64.compactIndex?, zero, one, Instr.act]
  | string value => rfl

theorem of_loadOf {ty : JType} {slot : Slot} {value : Value} (notVoid : ty.isVoid = false)
    (stored : setting.store slot = some value) (isValue : value.category = ty.category) :
    Runs setting [.var (.loadOf ty) slot] []
      (watched setting.watching [.var (.loadOf ty) slot]) none [value] := by
  apply of_go
  intro stack
  have family : (Opcode.iload ≤ Opcode.loadOf ty && Opcode.loadOf ty ≤ Opcode.aload) = true ∧
      Opcode.familyCategory (Opcode.loadOf ty - Opcode.iload) = ty.category :=
    JType.of_value notVoid
      (fun code c => (Opcode.iload ≤ Opcode.iload + Opcode.truncate code &&
          Opcode.iload + Opcode.truncate code ≤ Opcode.aload) = true ∧
        Opcode.familyCategory (Opcode.iload + Opcode.truncate code - Opcode.iload) = c)
      (fun p => by cases p <;> exact ⟨rfl, rfl⟩) ⟨rfl, rfl⟩
  simp only [Instr.act, family.1, if_true, stored, Option.bind_some, family.2, isValue,
    List.nil_append, List.cons_append]

end Runs

/-- The slot that a name stands for. -/
def namedSlot? (locals : LocalTable) (name : String) : Option Slot :=
  (Frame.indexIn? locals name).map Nat.toUInt16

theorem Later.isSome_shape {targets : List Label} {s t : State} {label : Label}
    (later : Later targets s t) (recorded : (s.shape? label).isSome = true) :
    (t.shape? label).isSome = true := by
  obtain ⟨shape, recorded⟩ := Option.isSome_iff_exists.mp recorded
  rw [later.shape_kept label shape recorded]
  rfl

namespace Gen

/-! ## Written code -/

/-- A property of generator states that survives what is done to write code for
values and conditions. -/
structure Stable (inv : State → Prop) : Prop where
  emits : ∀ ⦃s t code stack⦄, Emits s t code stack → inv s → inv t
  jump : ∀ ⦃ctx op target s t⦄, target ∈ s.old → jump ctx op target s = .ok () t → inv s → inv t
  newLabel : ∀ ⦃label s t⦄, newLabel s = .ok label t → inv s → inv t
  place : ∀ ⦃ctx label s t⦄, label ∈ s.old → place ctx label s = .ok () t → inv s → inv t

/-- The state keeps the property, and what is written between two states does
this. -/
structure Executes (setting : Setting) (targets : List Label)
    (before : List Value) (loads : List Instr) (exit : Option Label) (after : List Value)
    (s t : State) : Prop where
  later : Later targets s t
  code_eq : t.code = s.code ++ written s t
  keeps : setting.inv t
  runs : Runs setting (written s t) before loads exit after

/-- Code for a value of a type. -/
structure Computes (setting : Setting) (ty : JType) (value : Value)
    (loads : List Instr) (s t : State) : Prop
    extends Executes setting [] [] loads none [value] s t where
  alive : t.frame.alive = true
  stack_eq : t.frame.stack = ty :: s.frame.stack

/-- Code that goes to the target if the outcome has a sense and falls through
otherwise.  A position that cannot be reached has been left through the target,
and a target that is reached has a recorded shape. -/
structure Decides (setting : Setting) (outcome : Bool × List Instr)
    (sense : Bool) (target : Label) (s t : State) : Prop
    extends Executes setting [target] [] outcome.2
      (if outcome.1 = sense then some target else none) [] s t where
  dead : t.frame.alive = false → outcome.1 = sense
  marked : outcome.1 = sense → (t.shape? target).isSome = true

/-- If the operand can be generated, it has a type and a result, and its code
pushes the value. -/
structure Yields (ctx : Context) (setting : Setting) (operand : Operand) (type? : Option JType)
    (result? : Option (Value × List Instr)) : Prop where
  probed : ∀ ⦃s t found⦄, s.frame.alive = true → setting.inv s →
    probe ctx operand s = .ok found t → type? = some found ∧ setting.inv t
  valued : ∀ ⦃s t found⦄, s.frame.alive = true → setting.inv s →
    Gen.value operand.code s = .ok found t →
    ∃ result, type? = some found ∧ result? = some result ∧ result.1.category = found.category ∧
      Computes setting found result.1 result.2 s t

/-- If the branch can be generated, it has an outcome and goes to its target
exactly if the outcome has its sense. -/
def Deciding (setting : Setting) (branch : Branch)
    (outcome? : Option (Bool × List Instr)) : Prop :=
  ∀ ⦃s t sense target⦄, s.frame.alive = true → setting.inv s → target ∈ s.old →
    branch sense target s = .ok () t →
    ∃ outcome, outcome? = some outcome ∧ Decides setting outcome sense target s t

variable {setting : Setting} {targets targets' : List Label}
variable {before middle after : List Value} {loads loads' : List Instr} {exit : Option Label}
variable {s t u : State} {ctx : Context}

namespace Executes

theorem trans (first : Executes setting targets before loads none middle s u)
    (second : Executes setting targets' middle loads' exit after u t)
    (known : ∀ label ∈ targets',
      label ∈ targets ∨ (s.output.nextLabel ≤ label.id ∧ label.id < u.output.nextLabel)) :
    Executes setting targets before (loads ++ loads') exit after s t where
  later := first.later.trans second.later known
  code_eq := by
    rw [written_trans first.code_eq second.code_eq, ← List.append_assoc, ← first.code_eq]
    exact second.code_eq
  keeps := second.keeps
  runs := by
    rw [written_trans first.code_eq second.code_eq]
    exact first.runs.append second.runs

theorem mono (executes : Executes setting targets before loads exit after s t)
    (more : targets ⊆ targets') : Executes setting targets' before loads exit after s t :=
  { executes with later := executes.later.mono more }

theorem frame (executes : Executes setting targets before loads exit after s t)
    (below : List Value) :
    Executes setting targets (before ++ below) loads exit (after ++ below) s t :=
  { executes with runs := executes.runs.frame below }

theorem of_emits {code : List Instr} {stack : List JType} (stable : Stable setting.inv)
    (holds : setting.inv s) (emits : Emits s t code stack)
    (runs : Runs setting code before loads none after) :
    Executes setting targets before loads none after s t where
  later := Later.of_shapes emits.nextLabel_eq emits.shapes_eq
  code_eq := by
    have grown : t.code = s.code ++ code := emits.instrs_eq
    rw [written_eq grown, grown]
  keeps := stable.emits emits holds
  runs := by
    have grown : t.code = s.code ++ code := emits.instrs_eq
    rwa [written_eq grown]

theorem refl (holds : setting.inv s) (operands : List Value) :
    Executes setting targets operands [] none operands s s where
  later := Later.refl targets s
  code_eq := by simp [written]
  keeps := holds
  runs := by simpa [written] using Runs.nil operands

theorem old (executes : Executes setting targets before loads exit after s t) :
    s.old ⊆ t.old :=
  executes.later.old_subset

/-- What is written after code that is left through a label is not executed. -/
theorem leave {before' after' : List Value} {exit' : Option Label} {target : Label}
    (first : Executes setting targets before loads (some target) after s u)
    (second : Executes setting targets' before' loads' exit' after' u t)
    (known : ∀ label ∈ targets',
      label ∈ targets ∨ (s.output.nextLabel ≤ label.id ∧ label.id < u.output.nextLabel)) :
    Executes setting targets before loads (some target) after s t where
  later := first.later.trans second.later known
  code_eq := by
    rw [written_trans first.code_eq second.code_eq, ← List.append_assoc, ← first.code_eq]
    exact second.code_eq
  keeps := second.keeps
  runs := by
    rw [written_trans first.code_eq second.code_eq]
    exact first.runs.leave _

theorem of_newLabel {label : Label} (stable : Stable setting.inv) (holds : setting.inv s)
    (run : newLabel s = .ok label t) (operands : List Value) :
    Executes setting targets operands [] none operands s t := by
  have unwritten : written s t = [] := by
    obtain ⟨-, rfl⟩ := newLabel_eq_ok.mp run
    simp [written, State.code]
  refine ⟨newLabel_later run, ?_, stable.newLabel run holds, ?_⟩
  · rw [unwritten]
    obtain ⟨-, rfl⟩ := newLabel_eq_ok.mp run
    simp [State.code]
  · rw [unwritten]
    exact Runs.nil operands

theorem of_place {label : Label} (stable : Stable setting.inv) (holds : setting.inv s)
    (old : label ∈ s.old) (run : place ctx label s = .ok () t) (operands : List Value) :
    Executes setting [label] operands [] none operands s t := by
  obtain ⟨marks, later⟩ := place_later run
  refine ⟨later, marks.code_eq, stable.place old run holds, ?_⟩
  rw [marks.written_eq]
  exact Runs.of_label label operands

/-- Code that branches to a label falls through once the label is placed. -/
theorem rejoin {label : Label} (stable : Stable setting.inv)
    (first : Executes setting targets before loads (some label) after s u)
    (old : label ∈ u.old) (run : place ctx label u = .ok () t)
    (known : label ∈ targets ∨ s.output.nextLabel ≤ label.id) :
    Executes setting targets before loads none after s t := by
  obtain ⟨marks, later⟩ := place_later run
  have whole : written s t = written s u ++ [.label label] := by
    rw [written_trans first.code_eq marks.code_eq, marks.written_eq]
  refine ⟨first.later.trans later ?_, ?_, stable.place old run first.keeps, ?_⟩
  · intro other mem
    rw [List.mem_singleton] at mem
    subst mem
    exact known.imp_right fun newer => ⟨newer, old⟩
  · rw [whole, ← List.append_assoc, ← first.code_eq, marks.code_eq, marks.written_eq]
  · rw [whole]
    exact first.runs.rejoin

end Executes

/-- A position stays unreachable after a label only if nothing goes to it. -/
theorem place_dead {label : Label} (run : place ctx label s = .ok () t)
    (dead : t.frame.alive = false) : s.frame.alive = false ∧ s.shape? label = none := by
  cases alive : s.frame.alive with
  | true =>
      obtain ⟨-, -, aliveAfter, -⟩ := place_marks_of_alive alive run
      rw [aliveAfter] at dead
      contradiction
  | false =>
      obtain ⟨-, -, aliveAfter, -⟩ := place_marks_of_dead alive run
      rw [aliveAfter] at dead
      exact ⟨rfl, Option.isSome_eq_false_iff.mp dead |> Option.isNone_iff_eq_none.mp⟩

/-! ## Loads -/

theorem constant_emits {literal : Literal} (run : constant ctx literal s = .ok () t) :
    Emits s t [constantInstr literal] (literal.type :: s.frame.stack) := by
  obtain ⟨_, u, emitted, pushed⟩ := bind_eq_ok.mp run
  have emits := emit_emits (Instr.effect?_constantInstr literal).1 emitted
  have whole := emits.trans (push_emits pushed).1
  rwa [emits.stack_eq] at whole

theorem source_emits {op : Opcode} {ty : JType} (plain : (Instr.op op).isPlain = true)
    (run : source ctx op ty s = .ok () t) : Emits s t [.op op] (ty :: s.frame.stack) := by
  obtain ⟨_, u, emitted, pushed⟩ := bind_eq_ok.mp run
  have emits := emit_emits plain emitted
  have whole := emits.trans (push_emits pushed).1
  rwa [emits.stack_eq] at whole

theorem loadSlot_emits {slot : Slot} {ty : JType} (run : loadSlot ctx slot ty s = .ok () t) :
    ty.isVoid = false ∧ Emits s t [.var (.loadOf ty) slot] (ty :: s.frame.stack) := by
  obtain ⟨_, u, emitted, pushed⟩ := bind_eq_ok.mp run
  have emits := emit_emits rfl emitted
  obtain ⟨pushes, notVoid⟩ := push_emits pushed
  have whole := emits.trans pushes
  rw [emits.stack_eq] at whole
  exact ⟨notVoid, whole⟩

theorem load_emits {name : String} (run : load ctx (.named name) s = .ok () t) :
    ∃ slot ty, namedSlot? s.frame.locals name = some slot ∧
      Frame.typeIn? s.frame.locals slot.toNat = some ty ∧ ty.isVoid = false ∧
      Emits s t [.var (.loadOf ty) slot] (ty :: s.frame.stack) := by
  obtain ⟨slot, _, resolved, run⟩ := bind_eq_ok.mp run
  obtain ⟨⟨index, found, rfl⟩, rfl⟩ := resolveIndex_eq_ok.mp resolved
  obtain ⟨ty, _, typing, run⟩ := bind_eq_ok.mp run
  obtain ⟨typed, rfl⟩ := localType_eq_ok.mp typing
  obtain ⟨notVoid, emits⟩ := loadSlot_emits run
  exact ⟨_, ty, by simp [namedSlot?, found], typed, notVoid, emits⟩

end Gen

end JvmAssembler
