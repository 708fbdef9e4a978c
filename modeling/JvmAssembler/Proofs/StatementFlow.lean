import Mathlib
import JvmAssembler.Proofs.MatchedTables
import JvmAssembler.Proofs.OperandFlow

/-!
# Statements keep the stack in step

A run of a body, in which every operand is a value chain, writes instructions
that do to the categories on the machine's stack what the run does to the types
on the simulated one.  Bodies may leave any stack behind and may end where
control cannot be; the labels of structured statements are placed with the one
stack that all ways to them agree on.
-/

namespace JvmAssembler

namespace Gen

variable {α : Type} {result : JType}
variable {ctx : Context} {locals : LocalTable} {types : Position → Option JType}
variable {s t u : State} {code : Gen Unit} {type : Option JType}

/-! ## Local variables -/

/-- A change of the frame that concerns neither stack nor labels. -/
theorem onFrame_passes {op : FrameOp α} {a : α}
    (keeps : ∀ ⦃f b g⦄, op f = .ok b g →
      g.stack = f.stack ∧ g.alive = f.alive ∧ g.shapes = f.shapes ∧ f.Grows g)
    (run : onFrame op s = .ok a t) :
    Passes result s.old [] s t ∧ t.frame.stack = s.frame.stack ∧
      t.frame.alive = s.frame.alive := by
  obtain ⟨frame, ran, rfl⟩ := onFrame_eq_ok.mp run
  obtain ⟨stackEq, aliveEq, shapesEq, grows⟩ := keeps ran
  refine ⟨Passes.of_unwritten (Later.of_shapes rfl shapesEq) ?_ rfl grows, stackEq, aliveEq⟩
  simp [State.view, stackEq, aliveEq]

theorem addLocal_keeps {name : Option String} {ty : JType} ⦃f : Frame⦄ ⦃slot : Slot⦄ ⦃g : Frame⦄
    (run : Frame.addLocal name ty f = .ok slot g) :
    g.stack = f.stack ∧ g.alive = f.alive ∧ g.shapes = f.shapes ∧ f.Grows g := by
  obtain ⟨-, -, -, rfl⟩ := Frame.addLocal_eq_ok.mp run
  exact ⟨rfl, rfl, rfl, .of_same rfl rfl rfl rfl⟩

theorem setLocal_keeps {slot : Slot} {ty : JType} ⦃f : Frame⦄ ⦃a : Unit⦄ ⦃g : Frame⦄
    (run : Frame.setLocal slot ty f = .ok a g) :
    g.stack = f.stack ∧ g.alive = f.alive ∧ g.shapes = f.shapes ∧ f.Grows g := by
  obtain ⟨-, rfl⟩ := Frame.setLocal_eq_ok.mp run
  exact ⟨rfl, rfl, rfl, .of_same rfl rfl rfl rfl⟩

theorem storeSlot_goes {slot : Slot} {ty : JType} {rest : List JType}
    (alive : s.frame.alive = true) (stackEq : s.frame.stack = ty :: rest)
    (notVoid : ty.isVoid = false) (run : storeSlot ctx slot s = .ok () t) :
    Goes result types s t rest := by
  obtain ⟨top, u, popping, emitted⟩ := bind_eq_ok.mp run
  obtain ⟨below, stackEq', popped⟩ := pop_emits popping
  obtain ⟨rfl, rfl⟩ := List.cons.inj (stackEq.symm.trans stackEq')
  exact Goes.consume [ty] alive stackEq popped rfl (Instr.effect?_storeOf notVoid slot) emitted

theorem storeTarget_eq_ok {target : LocalRef} {found : Slot × Option JType}
    (run : storeTarget target s = .ok found t) : s = t := by
  cases target with
  | named name =>
      obtain ⟨slot, u, resolved, run⟩ := bind_eq_ok.mp run
      obtain ⟨ty, v, typed, returned⟩ := bind_eq_ok.mp run
      obtain ⟨-, rfl⟩ := resolveIndex_eq_ok.mp resolved
      obtain ⟨-, rfl⟩ := localType_eq_ok.mp typed
      exact (pure_eq_ok.mp returned).2
  | slot index =>
      cases run
      rfl

theorem store_passes {target : LocalRef} (evaluates : Evaluates ctx.result locals types code type)
    (ready : Ready locals types s) (run : store ctx target code s = .ok () t) :
    Passes ctx.result s.old [] s t := by
  obtain ⟨⟨slot, declared⟩, u, found, run⟩ := bind_eq_ok.mp run
  obtain rfl := storeTarget_eq_ok found
  obtain ⟨ty, s₁, valued, run⟩ := bind_eq_ok.mp run
  cases declared with
  | some declared =>
      obtain ⟨_, s₂, coerced, stored⟩ := bind_eq_ok.mp run
      obtain ⟨notVoid, goes⟩ := evaluates.coerced ready valued coerced
      have stores : Goes ctx.result types s₂ t _ :=
        storeSlot_goes goes.alive goes.stack_eq notVoid stored
      exact (goes.trans stores).toPasses
  | none =>
      obtain ⟨_, s₂, written, stored⟩ := bind_eq_ok.mp run
      obtain ⟨-, notVoid, goes⟩ := evaluates.value ready valued
      obtain ⟨declares, stackEq, aliveEq⟩ := onFrame_passes setLocal_keeps written
      have stores : Goes ctx.result types s₂ t _ := storeSlot_goes (aliveEq.trans goes.alive)
        (stackEq.trans goes.stack_eq) notVoid stored
      exact (goes.toPasses.andThen declares).andThen stores.toPasses

theorem declare_passes {name : String} {ty : JType}
    (evaluates : Evaluates ctx.result locals types code type) (ready : Ready locals types s)
    (run : declare ctx name ty code s = .ok () t) : Passes ctx.result s.old [] s t := by
  obtain ⟨_, s₁, valued, run⟩ := bind_eq_ok.mp run
  obtain ⟨_, s₂, coerced, run⟩ := bind_eq_ok.mp run
  obtain ⟨slot, s₃, added, stored⟩ := bind_eq_ok.mp run
  obtain ⟨notVoid, goes⟩ := evaluates.coerced ready valued coerced
  obtain ⟨declares, stackEq, aliveEq⟩ := onFrame_passes addLocal_keeps added
  have stores : Goes ctx.result types s₃ t _ := storeSlot_goes (aliveEq.trans goes.alive)
    (stackEq.trans goes.stack_eq) notVoid stored
  exact (goes.toPasses.andThen declares).andThen stores.toPasses

theorem declareUninit_passes {name : String} {ty : JType}
    (run : declareUninit name ty s = .ok () t) : Passes result s.old [] s t := by
  obtain ⟨_, u, added, returned⟩ := bind_eq_ok.mp run
  obtain ⟨-, rfl⟩ := pure_eq_ok.mp returned
  exact (onFrame_passes addLocal_keeps added).1

theorem category_stepLiteral (step : Int32) (p : Primitive) :
    (stepLiteral step p.computational).type.category = p.category := by
  cases p <;> rfl

theorem increment_goes {target : LocalRef} {step : Int32} (alive : s.frame.alive = true)
    (run : increment ctx target step s = .ok () t) :
    Goes ctx.result types s t s.frame.stack := by
  obtain ⟨slot, s₀, resolved, run⟩ := bind_eq_ok.mp run
  obtain ⟨ty, s₁, typed, run⟩ := bind_eq_ok.mp run
  obtain ⟨rfl, -⟩ := slotOf_localType resolved typed
  cases numeric : ty.asPrimitive?.filter Primitive.isNumeric with
  | none =>
      simp only [numeric] at run
      exact (throw_eq_ok.mp run).elim
  | some p =>
      simp only [numeric] at run
      obtain ⟨_, s₂, loaded, run⟩ := bind_eq_ok.mp run
      obtain ⟨_, s₃, pushed, run⟩ := bind_eq_ok.mp run
      obtain ⟨_, s₄, popping, run⟩ := bind_eq_ok.mp run
      obtain ⟨_, s₅, emitted, run⟩ := bind_eq_ok.mp run
      obtain ⟨_, s₆, pushing, run⟩ := bind_eq_ok.mp run
      obtain ⟨_, s₇, casted, stored⟩ := bind_eq_ok.mp run
      have isType : ty.category = p.category := by
        obtain ⟨found, -⟩ := Option.filter_eq_some_iff.mp numeric
        cases ty <;> cases found
        rfl
      obtain ⟨notVoid, loads⟩ : _ ∧ Goes ctx.result types s s₂ (ty :: s.frame.stack) :=
        loadSlot_goes alive loaded
      have pushes : Goes ctx.result types s₂ s₃ _ := constant_goes loads.alive pushed
      rw [loads.stack_eq] at pushes
      obtain ⟨-, popped⟩ := popN_emits popping
      rw [pushes.stack_eq] at popped
      have effect : (Instr.op (Opcode.iadd + p.computational.typecode)).effect? =
          some ⟨[(stepLiteral step p.computational).type, ty].map JType.category,
            [(JType.primitive p.computational).category]⟩ := by
        simp only [List.map_cons, List.map_nil, category_stepLiteral, isType,
          JType.category_primitive, Primitive.category_computational]
        exact Instr.effect?_iadd p
      obtain ⟨-, adds⟩ : _ ∧ Goes ctx.result types s₃ s₆ _ :=
        Goes.produce [_, ty] pushes.alive pushes.stack_eq popped (by cases p <;> rfl) effect emitted
          pushing
      obtain ⟨source, rest, stackEq, values, casts⟩ : ∃ source rest,
          s₆.frame.stack = source :: rest ∧ (source.isVoid = false → ty.isVoid = false) ∧
            Goes ctx.result types s₆ s₇ (ty :: rest) := castTop_goes adds.alive casted
      obtain ⟨rfl, rfl⟩ := List.cons.inj (adds.stack_eq.symm.trans stackEq)
      have stores : Goes ctx.result types s₇ t _ :=
        storeSlot_goes casts.alive casts.stack_eq (values rfl) stored
      exact loads.trans (pushes.trans (adds.trans (casts.trans stores)))

/-! ## Members and arrays -/

theorem putStatic_passes {owner : JType} {name : String}
    (evaluates : Evaluates ctx.result locals types code type) (ready : Ready locals types s)
    (run : putStatic ctx owner name code s = .ok () t) : Passes ctx.result s.old [] s t := by
  obtain ⟨field, u, resolved, run⟩ := bind_eq_ok.mp run
  obtain ⟨-, rfl⟩ := staticField_eq_ok resolved
  obtain ⟨_, s₁, valued, run⟩ := bind_eq_ok.mp run
  obtain ⟨_, s₂, coerced, run⟩ := bind_eq_ok.mp run
  obtain ⟨_, s₃, popping, emitted⟩ := bind_eq_ok.mp run
  obtain ⟨notVoid, goes⟩ := evaluates.coerced ready valued coerced
  obtain ⟨below, stackEq, popped⟩ := pop_emits popping
  obtain ⟨rfl, rfl⟩ := List.cons.inj (goes.stack_eq.symm.trans stackEq)
  have puts : Goes ctx.result types s₂ t _ := Goes.consume [field.valueType] goes.alive stackEq
    popped rfl (Member.effect?_putstatic notVoid) emitted
  exact (goes.trans puts).toPasses

theorem putField_passes {name : String} (evaluates : Evaluates ctx.result locals types code type)
    (ready : Ready locals types s) (run : putField ctx name code s = .ok () t) :
    Passes ctx.result s.old [] s t := by
  obtain ⟨field, u, resolved, run⟩ := bind_eq_ok.mp run
  obtain ⟨owner, rest, stackEq, reference, -, rfl⟩ := instanceField_eq_ok resolved
  obtain ⟨_, s₁, valued, run⟩ := bind_eq_ok.mp run
  obtain ⟨_, s₂, coerced, run⟩ := bind_eq_ok.mp run
  obtain ⟨_, s₃, popping, emitted⟩ := bind_eq_ok.mp run
  obtain ⟨notVoid, goes⟩ := evaluates.coerced ready valued coerced
  rw [stackEq] at goes
  obtain ⟨-, popped⟩ := popN_emits popping
  rw [goes.stack_eq] at popped
  have effect : (Instr.member .putfield field.ref).effect? =
      some ⟨[field.valueType, owner].map JType.category, []⟩ := by
    rw [List.map_cons, List.map_singleton, JType.category_of_isReference reference]
    exact Member.effect?_putfield notVoid
  have puts : Goes ctx.result types s₂ t _ :=
    Goes.consume [field.valueType, owner] goes.alive goes.stack_eq popped rfl effect emitted
  exact (goes.trans puts).toPasses

theorem superInit_passes {args : List Operand} {argTypes : List (Option JType)}
    (typed : OfOperands ctx.result locals types args argTypes) (ready : Ready locals types s)
    (run : superInit ctx args s = .ok () t) : Passes ctx.result s.old [] s t := by
  unfold superInit at run
  obtain ⟨-, run⟩ := check_eq_ok.mp run
  obtain ⟨found, s₁, probed, run⟩ := bind_eq_ok.mp run
  obtain ⟨method, _, resolved, run⟩ := bind_eq_ok.mp run
  obtain ⟨isMethod, rfl⟩ := resolveMethod_eq_ok resolved
  obtain ⟨_, s₂, loaded, run⟩ := bind_eq_ok.mp run
  obtain ⟨_, s₃, pushing, run⟩ := bind_eq_ok.mp run
  obtain ⟨_, s₄, passed, finished⟩ := bind_eq_ok.mp run
  obtain ⟨areTypes, probes⟩ := probeAll_goes typed ready probed
  obtain ⟨-, loads⟩ : _ ∧ Goes ctx.result types s₁ s₃ (.self :: s₁.frame.stack) :=
    Goes.produce [] probes.alive rfl (Emits.refl s₁) rfl rfl loaded pushing
  have calls := call_goes [.self] typed areTypes isMethod (loads.ready (probes.ready ready))
    loads.stack_eq rfl (.inr ⟨.inr (.inl rfl), rfl⟩) passed finished
  exact (probes.trans (loads.trans calls)).toPasses

theorem arrayStore_passes {index : Gen Unit} {indexType : Option JType}
    (indexes : Evaluates ctx.result locals types index indexType)
    (evaluates : Evaluates ctx.result locals types code type) (ready : Ready locals types s)
    (run : arrayStore ctx index code s = .ok () t) : Passes ctx.result s.old [] s t := by
  obtain ⟨elem, _, isArray, run⟩ := bind_eq_ok.mp run
  obtain ⟨rest, stackEq, rfl⟩ := arrayElement_eq_ok isArray
  obtain ⟨_, s₁, valuedIndex, run⟩ := bind_eq_ok.mp run
  obtain ⟨_, s₂, coercedIndex, run⟩ := bind_eq_ok.mp run
  obtain ⟨_, s₃, valued, run⟩ := bind_eq_ok.mp run
  obtain ⟨_, s₄, coerced, run⟩ := bind_eq_ok.mp run
  obtain ⟨_, s₅, popping, emitted⟩ := bind_eq_ok.mp run
  obtain ⟨-, first⟩ := indexes.coerced ready valuedIndex coercedIndex
  obtain ⟨notVoid, second⟩ := evaluates.coerced (first.ready ready) valued coerced
  rw [first.stack_eq, stackEq] at second
  obtain ⟨-, popped⟩ := popN_emits popping
  rw [second.stack_eq] at popped
  obtain ⟨plain, effect⟩ := Instr.effect?_arrayStoreOf notVoid
  have stores : Goes ctx.result types s₄ t rest :=
    Goes.consume [elem, .int, .array elem] second.alive second.stack_eq popped plain effect emitted
  exact (first.trans (second.trans stores)).toPasses

theorem discard_passes (alive : s.frame.alive = true) (run : discard ctx s = .ok () t) :
    Passes result s.old [] s t := by
  obtain ⟨ty, u, popping, emitted⟩ := bind_eq_ok.mp run
  obtain ⟨rest, stackEq, popped⟩ := pop_emits popping
  have wrote := popped.trans (emit_emits (by split <;> rfl) emitted)
  rw [popped.stack_eq] at wrote
  refine Passes.of_emits alive wrote (by split <;> decide) ?_ le_rfl
  rw [stackEq]
  cases wide : ty.isWide with
  | false => simp [afterAll?, Instr.after?_pop ((JType.isWide_category ty).trans wide)]
  | true => simp [afterAll?, Instr.after?_pop2 ((JType.isWide_category ty).trans wide)]

/-! ## Ends -/

/-- An instruction after which control cannot continue, after its operands were
popped. -/
theorem terminal_passes {op : Opcode} (takes : List JType) {rest : List JType}
    (alive : s.frame.alive = true) (stackEq : s.frame.stack = takes ++ rest)
    (popped : Emits s u [] rest) (terminal : op.isTerminal = true)
    (effect : (Instr.op op).effect? = some ⟨takes.map JType.category, []⟩)
    (returns : (Instr.op op).returnsAs result) (run : emitOp ctx op u = .ok () t) :
    Passes result s.old [] s t := by
  obtain ⟨marks, shapesEq, dead⟩ := emit_ends terminal run
  have grown : t.code = s.code ++ [.op op] := by
    rw [← show u.code = s.code from popped.instrs_eq.trans (List.append_nil _)]
    exact marks.instrs_eq
  have later : Later [] s t := Later.of_shapes (marks.nextLabel_eq.trans popped.nextLabel_eq)
    (shapesEq.trans popped.shapes_eq)
  refine Passes.of_short later grown le_rfl (popped.grows.trans marks.grows) fun shapes _ => ?_
  have after := Instr.after?_append effect (rest.map JType.category)
  rw [written_eq grown, State.view_of_alive alive, State.view_of_dead dead, stackEq,
    List.map_append]
  simp [flow, flowStep, after, returns, Instr.agreesAt, Instr.continues, terminal]

theorem returnValue_passes (alive : s.frame.alive = true)
    (run : returnValue ctx s = .ok () t) : Passes ctx.result s.old [] s t := by
  unfold returnValue at run
  obtain ⟨isValue, run⟩ := check_eq_ok.mp run
  obtain ⟨_, s₁, coerced, run⟩ := bind_eq_ok.mp run
  obtain ⟨_, s₂, popping, emitted⟩ := bind_eq_ok.mp run
  have isValue : ctx.result.isVoid = false := by simpa using isValue
  obtain ⟨source, rest, -, -, converts⟩ : ∃ source rest, s.frame.stack = source :: rest ∧
      (source.isVoid = false → ctx.result.isVoid = false) ∧
        Goes ctx.result (fun _ => none) s s₁ (ctx.result :: rest) := coerceTop_goes alive coerced
  obtain ⟨below, stackEq, popped⟩ := pop_emits popping
  obtain ⟨rfl, rfl⟩ := List.cons.inj (converts.stack_eq.symm.trans stackEq)
  obtain ⟨effect, returned⟩ := Instr.effect?_returnOf isValue
  refine converts.toPasses.andThen (terminal_passes [ctx.result] converts.alive stackEq popped
    (JType.of_value isValue (fun code _ => (Opcode.ireturn + Opcode.truncate code).isTerminal = true)
      (fun p => by cases p <;> rfl) rfl) effect ?_ emitted)
  intro c found
  exact ⟨isValue, Option.some.inj (returned.symm.trans found)⟩

theorem returnsAs_of_returned?_eq_none {instr : Instr} (none : instr.returned? = none) :
    instr.returnsAs result := by
  simp [Instr.returnsAs, none]

theorem emit_returnVoid_passes (alive : s.frame.alive = true)
    (run : emitOp ctx .returnVoid s = .ok () t) : Passes result s.old [] s t :=
  terminal_passes [] alive rfl (Emits.refl s) rfl rfl (returnsAs_of_returned?_eq_none rfl) run

theorem returnVoid_passes (alive : s.frame.alive = true) (run : returnVoid ctx s = .ok () t) :
    Passes result s.old [] s t := by
  unfold returnVoid at run
  exact emit_returnVoid_passes alive (check_eq_ok.mp run).2

theorem raise_passes (alive : s.frame.alive = true) (run : raise ctx s = .ok () t) :
    Passes result s.old [] s t := by
  obtain ⟨ty, _, peeked, run⟩ := bind_eq_ok.mp run
  obtain ⟨⟨rest, stackEq⟩, rfl⟩ := peek_eq_ok.mp peeked
  obtain ⟨throwable, run⟩ := check_eq_ok.mp run
  obtain ⟨_, s₁, popping, emitted⟩ := bind_eq_ok.mp run
  obtain ⟨below, stackEq', popped⟩ := pop_emits popping
  obtain ⟨rfl, rfl⟩ := List.cons.inj (stackEq.symm.trans stackEq')
  have notPrimitive : ty.isPrimitive = false := by
    cases ty with
    | primitive p => simp [MemberTable.isSubtype, JType.named] at throwable
    | _ => rfl
  have effect : (Instr.op .athrow).effect? = some ⟨[ty].map JType.category, []⟩ := by
    rw [List.map_singleton, JType.category_of_notPrimitive notPrimitive]
    rfl
  exact terminal_passes [ty] alive stackEq popped rfl effect (returnsAs_of_returned?_eq_none rfl)
    emitted

/-! ## Where nothing is remembered -/

/-- Nothing is remembered for the children of a position from `index` on, nor
below them. -/
def Unprobed (s : State) (pos : Position) (index : Nat) : Prop :=
  ∀ p ty, s.probed[p]? = some ty → ∀ i, index ≤ i → ¬(i :: pos) <:+ p

/-- Nothing is remembered of the rest of a body, from the child with this index
on, and the table of local variables has as many names as types. -/
structure Unseen (s : State) (pos : Position) (index : Nat) : Prop where
  unprobed : Unprobed s pos index
  matched : s.frame.locals.Matched

/-- A state in which the rest of a body, from the child with this index on, can
be generated. -/
structure Open (s : State) (pos : Position) (index : Nat) : Prop extends Unseen s pos index where
  shapesBelow : s.ShapesBelow

namespace Unprobed

variable {pos : Position} {index : Nat} {targets : List Label}

theorem inner (unprobed : Unprobed s pos index) {child : Nat} (later : index ≤ child) :
    Unprobed s (child :: pos) 0 :=
  fun p ty found i _ below =>
    unprobed p ty found child later ((List.suffix_cons i _).trans below)

theorem advance (unprobed : Unprobed s pos index) (advance : Advance (index :: pos) targets s t) :
    Unprobed t pos (index + 1) := by
  intro p ty found i later below
  rcases advance.probed_below p ty found with before | inside
  · exact unprobed p ty before i (by omega) below
  · have same := List.IsSuffix.eq_of_length
      (List.suffix_of_suffix_length_le below inside (by simp)) (by simp)
    have := (List.cons.inj same).1
    omega

theorem getElem?_eq_none (unprobed : Unprobed s pos index) {child : Nat} (later : index ≤ child)
    (path : List Nat) : s.probed[path.reverse ++ child :: pos]? = none := by
  cases found : s.probed[path.reverse ++ child :: pos]? with
  | none => rfl
  | some ty => exact absurd (List.suffix_append _ _) (unprobed _ ty found child later)

theorem congr (unprobed : Unprobed s pos index) (same : t.probed = s.probed) :
    Unprobed t pos index := by
  simpa [Unprobed, same] using unprobed

end Unprobed

namespace Unseen

variable {pos : Position} {index : Nat} {targets : List Label}

theorem inner (unseen : Unseen s pos index) {child : Nat} (later : index ≤ child) :
    Unseen s (child :: pos) 0 :=
  ⟨unseen.unprobed.inner later, unseen.matched⟩

theorem skip (unseen : Unseen s pos index) : Unseen s pos (index + 1) :=
  ⟨fun p ty found i later => unseen.unprobed p ty found i (by omega), unseen.matched⟩

theorem congr (unseen : Unseen s pos index) (probed : t.probed = s.probed)
    (locals : t.frame.locals = s.frame.locals) : Unseen t pos index :=
  ⟨unseen.unprobed.congr probed, locals ▸ unseen.matched⟩

/-- After a child has been generated. -/
theorem advance {x : Gen Unit} (unseen : Unseen s pos index)
    (advances : Advances (index :: pos) targets x) (keeps : KeepsMatched x)
    (run : x s = .ok () t) : Unseen t pos (index + 1) :=
  ⟨unseen.unprobed.advance (advances run), keeps.of_ok run unseen.matched⟩

end Unseen

/-! ## Structured statements -/

/-- The runs of a branch in an open state. -/
def BranchPasses (result : JType) (pos : Position) (index : Nat) (branch : Branch) : Prop :=
  ∀ ⦃s t sense target⦄, s.frame.alive = true → Open s pos index → target ∈ s.old →
    branch sense target s = .ok () t →
    (∃ types, Tests result types s t target s.frame.stack) ∧ Open t pos (index + 1)

/-- The runs of a body in an open state. -/
def BodyPasses (result : JType) (pos : Position) (index : Nat) (code : Gen Unit) : Prop :=
  ∀ ⦃s t⦄, Open s pos index → s.frame.alive = true → code s = .ok () t →
    Passes result s.old [] s t ∧ Open t pos (index + 1)

section

variable {pos : Position} {index : Nat} {label : Label} {branch : Branch} {body otherwise : Gen Unit}

theorem Open.opens (ready : Open s pos index) (opens : s.Opens t label) : Open t pos index where
  toUnseen := ready.toUnseen.congr opens.probed_eq (by rw [opens.frame_eq])
  shapesBelow := by
    intro other recorded
    rw [State.shape?, opens.frame_eq] at recorded
    exact opens.older (ready.shapesBelow other recorded)

theorem Open.place (ready : Open s pos index) (old : label ∈ s.old)
    (run : place ctx label s = .ok () t) : Open t pos index := by
  obtain ⟨marks, later⟩ := place_later run
  exact ⟨ready.toUnseen.congr marks.probed_eq marks.locals_eq,
    later.shapesBelow ready.shapesBelow (by simpa using old)⟩

/-- After a child has been generated that jumps to none but known labels. -/
theorem Open.advance {targets : List Label} {x : Gen Unit} (ready : Open s pos index)
    (advances : Advances (index :: pos) targets x) (keeps : KeepsMatched x)
    (known : ∀ target ∈ targets, target ∈ s.old) (run : x s = .ok () t) :
    Open t pos (index + 1) :=
  ⟨ready.toUnseen.advance advances keeps run, (advances run).shapesBelow ready.shapesBelow known⟩

theorem inScope_passes (passes : BodyPasses result pos index body) (alive : s.frame.alive = true)
    (ready : Open s pos index) (run : inScope body s = .ok () t) :
    Passes result s.old [] s t ∧ Open t pos (index + 1) := by
  obtain ⟨u, start, rest, ran, -, rfl⟩ := inScope_eq_ok.mp run
  have entered : Open s.entered pos index := ⟨ready.toUnseen.congr rfl rfl, ready.shapesBelow⟩
  obtain ⟨inner, next⟩ := passes entered alive ran
  exact ⟨inner.between ⟨rfl, rfl, rfl, .of_same rfl rfl rfl rfl⟩
    ⟨rfl, rfl, rfl, .of_same rfl rfl rfl rfl⟩ (by simp),
    ⟨next.unprobed, next.matched.take start⟩, next.shapesBelow⟩

/-- A body that is skipped where control cannot be. -/
theorem whenAlive_passes (passes : BodyPasses result pos index body) (ready : Open s pos index)
    (run : whenAlive (inScope body) s = .ok () t) :
    Passes result s.old [] s t ∧ Open t pos (index + 1) := by
  rcases whenAlive_eq_ok.mp run with ⟨alive, ran⟩ | ⟨-, rfl⟩
  · exact inScope_passes passes alive ready ran
  · exact ⟨Passes.refl s, ready.toUnseen.skip, ready.shapesBelow⟩

theorem ifThen_passes (tests : BranchPasses ctx.result pos index branch)
    (passes : BodyPasses ctx.result pos (index + 1) body) (alive : s.frame.alive = true)
    (ready : Open s pos index) (run : ifThen ctx branch body s = .ok () t) :
    Passes ctx.result s.old [] s t := by
  obtain ⟨stop, s₁, allocated, run⟩ := bind_eq_ok.mp run
  obtain ⟨_, s₂, tested, run⟩ := bind_eq_ok.mp run
  obtain ⟨_, s₃, bodyRun, placed⟩ := bind_eq_ok.mp run
  have opens := newLabel_opens allocated
  obtain ⟨⟨types, test⟩, ready₂⟩ := tests (opens.frame_eq ▸ alive) (ready.opens opens) opens.old tested
  obtain ⟨bodyPart, -⟩ := whenAlive_passes passes ready₂ bodyRun
  have stopOld : stop ∈ s₃.old := bodyPart.later.old_subset (test.later.old_subset opens.old)
  have placing : Passes ctx.result s.old [stop] s₃ t :=
    Passes.of_place stopOld opens.fresh placed
  have afterTest : Passes ctx.result s.old [stop] s₂ t :=
    (bodyPart.mono test.later.old_subset (by simp)).trans placing opens.older
      (by simpa using opens.old) (List.Subset.refl _)
  have whole := test.toPasses.trans afterTest opens.older (by simpa using opens.old)
    (List.Subset.refl _)
  exact Passes.opened allocated whole (List.Subset.refl _)

theorem jumpWhenAlive_passes (ready : Open s pos index) (old : label ∈ s.old)
    (run : whenAlive (jump ctx .goto label) s = .ok () t) :
    Passes result s.old [label] s t ∧ Open t pos index := by
  rcases whenAlive_eq_ok.mp run with ⟨alive, jumped⟩ | ⟨-, rfl⟩
  · have jumps : Tests result (fun _ => none) s t label s.frame.stack := goto_tests alive jumped
    have marks := (jump_marks jumped).1
    exact ⟨jumps.toPasses, ready.toUnseen.congr marks.probed_eq marks.locals_eq,
      jumps.later.shapesBelow ready.shapesBelow (by simpa using old)⟩
  · exact ⟨Passes.refl s, ready⟩

theorem ifElse_passes (tests : BranchPasses ctx.result pos index branch)
    (passes : BodyPasses ctx.result pos (index + 1) body)
    (otherwisePasses : BodyPasses ctx.result pos (index + 2) otherwise)
    (alive : s.frame.alive = true) (ready : Open s pos index)
    (run : ifElse ctx branch body otherwise s = .ok () t) : Passes ctx.result s.old [] s t := by
  obtain ⟨stop, s₁, allocatedStop, run⟩ := bind_eq_ok.mp run
  obtain ⟨other, s₂, allocated, run⟩ := bind_eq_ok.mp run
  obtain ⟨_, s₃, tested, run⟩ := bind_eq_ok.mp run
  obtain ⟨_, s₄, bodyRun, run⟩ := bind_eq_ok.mp run
  obtain ⟨_, s₅, jumped, run⟩ := bind_eq_ok.mp run
  obtain ⟨_, s₆, placedOther, run⟩ := bind_eq_ok.mp run
  obtain ⟨_, s₇, otherwiseRun, placedStop⟩ := bind_eq_ok.mp run
  have opensStop := newLabel_opens allocatedStop
  have opens := newLabel_opens allocated
  have stopOld : stop ∈ s₂.old := opens.older opensStop.old
  have differ : other ≠ stop := fun same => opens.fresh (same ▸ opensStop.old)
  have alive₂ : s₂.frame.alive = true := by rw [opens.frame_eq, opensStop.frame_eq, alive]
  obtain ⟨⟨types, test⟩, ready₃⟩ :=
    tests alive₂ ((ready.opens opensStop).opens opens) opens.old tested
  obtain ⟨bodyPart, ready₄⟩ := whenAlive_passes passes ready₃ bodyRun
  have stopOld₃ := test.later.old_subset stopOld
  obtain ⟨exit, ready₅⟩ :=
    jumpWhenAlive_passes ready₄ (bodyPart.later.old_subset stopOld₃) jumped
  have thenPart : Passes ctx.result s₃.old [stop] s₃ s₅ :=
    (bodyPart.mono (Set.Subset.refl _) (by simp)).seq exit (by simpa using stopOld₃)
      (List.Subset.refl _)
  have otherOld₅ : other ∈ s₅.old :=
    thenPart.later.old_subset (test.later.old_subset opens.old)
  obtain ⟨otherPart, -⟩ :=
    whenAlive_passes otherwisePasses (ready₅.place otherOld₅ placedOther) otherwiseRun
  have arms := Passes.of_arms (opensStop.older.trans opens.older) opens.old
    (fun old => opens.fresh (opensStop.older old)) stopOld opensStop.fresh differ test.toPasses
    thenPart placedOther otherPart placedStop
  have opened : Passes ctx.result s.old [stop] s₁ t := Passes.opened allocated arms (by simp)
  exact Passes.opened allocatedStop opened (by simp)

theorem whileLoop_passes (tests : BranchPasses ctx.result pos index branch)
    (passes : BodyPasses ctx.result pos (index + 1) body) (alive : s.frame.alive = true)
    (ready : Open s pos index) (run : whileLoop ctx branch body s = .ok () t) :
    Passes ctx.result s.old [] s t := by
  obtain ⟨start, s₁, allocated, run⟩ := bind_eq_ok.mp run
  obtain ⟨stop, s₂, allocatedStop, run⟩ := bind_eq_ok.mp run
  obtain ⟨_, s₃, placedStart, run⟩ := bind_eq_ok.mp run
  obtain ⟨_, s₄, tested, run⟩ := bind_eq_ok.mp run
  obtain ⟨_, s₅, loopRun, placedStop⟩ := bind_eq_ok.mp run
  have opens := newLabel_opens allocated
  have opensStop := newLabel_opens allocatedStop
  have startOld : start ∈ s₂.old := opensStop.older opens.old
  have older := opens.older.trans opensStop.older
  have alive₂ : s₂.frame.alive = true := by rw [opensStop.frame_eq, opens.frame_eq, alive]
  have ready₃ := ((ready.opens opens).opens opensStop).place startOld placedStart
  have entry : Passes ctx.result s₂.old [start] s₂ s₃ := Passes.of_place_alive alive₂ placedStart
  have alive₃ := (place_marks_of_alive alive₂ placedStart).2.2.1
  obtain ⟨⟨types, test⟩, ready₄⟩ :=
    tests alive₃ ready₃ (entry.later.old_subset opensStop.old) tested
  have upTo₄ := entry.later.old_subset.trans test.later.old_subset
  have loopPart : Passes ctx.result s₄.old [start] s₄ s₅ := by
    refine Passes.of_whenAlive (fun alive ran => ?_) loopRun
    obtain ⟨_, u, bodyRun, jumped⟩ := bind_eq_ok.mp ran
    obtain ⟨bodyPart, ready₅⟩ := inScope_passes passes alive ready₄ bodyRun
    obtain ⟨back, -⟩ :=
      jumpWhenAlive_passes ready₅ (bodyPart.later.old_subset (upTo₄ startOld)) jumped
    exact (bodyPart.mono (Set.Subset.refl _) (by simp)).seq back (by simpa using upTo₄ startOld)
      (List.Subset.refl _)
  have stopping : Passes ctx.result s.old [stop] s₅ t :=
    Passes.of_place (loopPart.later.old_subset (upTo₄ opensStop.old))
      (fun old => opensStop.fresh (opens.older old)) placedStop
  have labels : ∀ label ∈ [start, stop], label ∈ s₂.old := by
    simpa using ⟨startOld, opensStop.old⟩
  have afterTest : Passes ctx.result s.old [start, stop] s₄ t :=
    (loopPart.mono upTo₄ (by simp)).trans stopping older (by simpa using opensStop.old) (by simp)
  have afterEntry : Passes ctx.result s.old [start, stop] s₃ t :=
    (test.toPasses.mono entry.later.old_subset (by simp)).trans afterTest older labels
      (List.Subset.refl _)
  have loop : Passes ctx.result s.old [start, stop] s₂ t :=
    (entry.mono (Set.Subset.refl _) (by simp)).trans afterEntry older labels (List.Subset.refl _)
  have opened : Passes ctx.result s.old [start] s₁ t := Passes.opened allocatedStop loop (by simp)
  exact Passes.opened allocated opened (by simp)

end

end Gen

open Gen

/-! ## Bodies -/

section

variable {ctx : Context} {pos : Position} {s t : State}

/-- An operation in an open state: its operands can be given their types. -/
theorem Op.exists_ready (ctx : Context) {op : Op}
    (chains : ∀ operand ∈ op.operands, operand.isValueChain = true)
    (alive : s.frame.alive = true) (ready : Open s pos 0) :
    ∃ types, Ready s.frame.locals types s ∧
      Known ctx s.frame.locals types pos op.operands op.operandAt? := by
  obtain ⟨types, knows, known⟩ := exists_known ctx pos s chains
    fun path operand (found : op.operandAt? path = some operand) => by
      obtain ⟨child, rest, rfl⟩ := op.exists_step_of_operandAt? found
      simpa using ready.unprobed.getElem?_eq_none (Nat.zero_le child) rest
  exact ⟨types, ⟨⟨rfl, ready.matched, ready.shapesBelow, knows⟩, alive⟩, known⟩

theorem Cond.branch_passes {c : Cond} (chains : ∀ operand ∈ c.operands, operand.isValueChain = true) :
    BranchPasses ctx.result pos 0 (c.branch ctx (0 :: pos)) := by
  intro s t sense target alive ready known run
  obtain ⟨types, knows, given⟩ := exists_known ctx (0 :: pos) s chains
    fun path operand (_ : c.operandAt? path = some operand) =>
      ready.unprobed.getElem?_eq_none (Nat.le_refl 0) path
  have tests := c.branch_branching ctx s.frame.locals types (0 :: pos) given
    ⟨⟨rfl, ready.matched, ready.shapesBelow, knows⟩, alive⟩ known run
  have advances := c.branch_advances ctx (0 :: pos) List.suffix_rfl (List.mem_singleton_self target)
    sense
  exact ⟨⟨types, tests⟩, ready.advance advances (c.branch_keepsMatched ctx _ sense target)
    (by simpa using known) run⟩

/-- A body that is the child of an operation. -/
theorem bodyPasses_child {child : Nat} {ops : List Op}
    (passes : ∀ ⦃s t⦄, Open s (child :: pos) 0 → codeFrom ctx (child :: pos) 0 ops s = .ok () t →
      Passes ctx.result s.old [] s t) :
    BodyPasses ctx.result pos child (codeFrom ctx (child :: pos) 0 ops) := by
  intro s t ready _ run
  have inner : Open s (child :: pos) 0 := ⟨ready.toUnseen.inner (Nat.le_refl child), ready.shapesBelow⟩
  have advances := codeFrom_advances ctx (child :: pos) 0 [] ops List.suffix_rfl
  exact ⟨passes inner run,
    ready.advance advances (codeFrom_keepsMatched ctx _ 0 ops) (by simp) run⟩

/-- The operations that hold bodies. -/
def Op.isStructured : Op → Bool
  | .ifThen .. | .ifElse .. | .whileLoop .. | .block _ => true
  | _ => false

theorem Op.body_passes_of_unstructured {op : Op} (unstructured : op.isStructured = false)
    (chains : ∀ operand ∈ op.operands, operand.isValueChain = true) (ready : Open s pos 0)
    (alive : s.frame.alive = true) (run : op.body ctx pos s = .ok () t) :
    Passes ctx.result s.old [] s t := by
  obtain ⟨types, ready, known⟩ := Op.exists_ready ctx chains alive ready
  by_cases step : op.isValueStep = true
  · obtain ⟨stack, -, goes⟩ := op.body_goes ctx s.frame.locals types pos step known ready run
    exact goes.toPasses
  cases op with
  | store target value =>
      have known := known.operand 0 (List.Subset.refl _) fun _ => rfl
      exact store_passes known.ofOperand.evaluates ready run
  | declare name type init =>
      have known := known.operand 0 (List.Subset.refl _) fun _ => rfl
      exact declare_passes known.ofOperand.evaluates ready run
  | declareUninit name type => exact declareUninit_passes run
  | increment target step => exact (increment_goes alive run : Goes ctx.result types s t _).toPasses
  | putField name value =>
      have known := known.operand 0 (List.Subset.refl _) fun _ => rfl
      exact putField_passes known.ofOperand.evaluates ready run
  | putStatic owner name value =>
      have known := known.operand 0 (List.Subset.refl _) fun _ => rfl
      exact putStatic_passes known.ofOperand.evaluates ready run
  | superInit args =>
      exact superInit_passes (operandsFrom_typed ctx s.frame.locals types pos 0 args known) ready run
  | arrayStore index value =>
      have knownIndex := known.operand 0 (List.subset_append_left _ _) fun _ => rfl
      have knownValue := known.operand 1 (List.subset_append_right _ _) fun _ => rfl
      exact arrayStore_passes knownIndex.ofOperand.evaluates knownValue.ofOperand.evaluates ready run
  | pop => exact discard_passes alive run
  | returnValue => exact returnValue_passes alive run
  | returnVoid => exact returnVoid_passes alive run
  | throw => exact raise_passes alive run
  | malformed reason => exact (throw_eq_ok.mp run).elim
  | ifThen | ifElse | whileLoop | block => contradiction
  | _ => exact absurd rfl step

end

mutual

theorem Op.body_passes (ctx : Context) (pos : Position) :
    (op : Op) → (∀ operand ∈ op.operands, operand.isValueChain = true) →
      ∀ ⦃s t⦄, Open s pos 0 → s.frame.alive = true → op.body ctx pos s = .ok () t →
        Passes ctx.result s.old [] s t
  | .ifThen cond body, chains => fun _ _ ready alive run =>
      ifThen_passes (cond.branch_passes fun f mem => chains f (by simp [Op.operands, mem]))
        (bodyPasses_child (codeFrom_passes ctx (1 :: pos) 0 body
          fun f mem => chains f (by simp [Op.operands, mem]))) alive ready run
  | .ifElse cond body otherwise, chains => fun _ _ ready alive run =>
      ifElse_passes (cond.branch_passes fun f mem => chains f (by simp [Op.operands, mem]))
        (bodyPasses_child (codeFrom_passes ctx (1 :: pos) 0 body
          fun f mem => chains f (by simp [Op.operands, mem])))
        (bodyPasses_child (codeFrom_passes ctx (2 :: pos) 0 otherwise
          fun f mem => chains f (by simp [Op.operands, mem]))) alive ready run
  | .whileLoop cond body, chains => fun _ _ ready alive run =>
      whileLoop_passes (cond.branch_passes fun f mem => chains f (by simp [Op.operands, mem]))
        (bodyPasses_child (codeFrom_passes ctx (1 :: pos) 0 body
          fun f mem => chains f (by simp [Op.operands, mem]))) alive ready run
  | .block body, chains => fun _ _ ready alive run =>
      (inScope_passes (bodyPasses_child (codeFrom_passes ctx (0 :: pos) 0 body
        fun f mem => chains f (by simp [Op.operands, mem]))) alive ready run).1
  | .constant _, chains | .boolean _, chains | .null, chains | .this, chains | .load _, chains
  | .store .., chains | .declare .., chains | .declareUninit .., chains | .increment .., chains
  | .getField _, chains | .putField .., chains | .getStatic .., chains | .putStatic .., chains
  | .invoke .., chains | .invokeStatic .., chains | .construct .., chains | .superInit _, chains
  | .newArray .., chains | .arrayLoad _, chains | .arrayStore .., chains | .arrayLength, chains
  | .arith .., chains | .negate, chains | .cast _, chains | .convert _, chains
  | .instanceOf _, chains | .pop, chains | .returnValue, chains | .returnVoid, chains
  | .throw, chains | .conditional .., chains | .condValue _, chains | .malformed _, chains =>
      fun _ _ => Op.body_passes_of_unstructured rfl chains

theorem codeFrom_passes (ctx : Context) (pos : Position) (index : Nat) :
    (ops : List Op) → (∀ operand ∈ operandsIn ops, operand.isValueChain = true) →
      ∀ ⦃s t⦄, Open s pos index → codeFrom ctx pos index ops s = .ok () t →
        Passes ctx.result s.old [] s t
  | [], _ => by
      intro s t ready run
      obtain ⟨-, rfl⟩ := pure_eq_ok.mp run
      exact Passes.refl s
  | op :: rest, chains => by
      intro s t ready run
      obtain ⟨_, u, first, others⟩ := bind_eq_ok.mp run
      have next := ready.advance (.operation op.name (op.body_advances ctx (index :: pos) []))
        (.operation op.name (op.body_keepsMatched ctx _)) (by simp) first
      obtain ⟨alive, v, ran, rfl⟩ := operation_eq_ok.mp first
      have deeper : Open { s with depth := s.depth + 1 } (index :: pos) 0 :=
        ⟨(ready.toUnseen.inner (Nat.le_refl index)).congr rfl rfl, ready.shapesBelow⟩
      have inner := op.body_passes ctx (index :: pos)
        (fun f mem => chains f (by simp [operandsIn, mem])) deeper alive ran
      have passes : Passes ctx.result s.old [] s (v.leave s.depth) :=
        inner.between ⟨rfl, rfl, rfl, .refl _⟩ ⟨rfl, rfl, rfl, .refl _⟩ (by simp)
      have goesOn := codeFrom_passes ctx pos (index + 1) rest
        (fun f mem => chains f (by simp [operandsIn, mem])) next others
      exact passes.andThen goesOn

end

end JvmAssembler
