import Mathlib
import JvmAssembler.Proofs.ValueFlow

/-!
# Branches and conditional values keep the stack in step

A run of a branch leaves the stack as it was, on the way through and for the
target.  Conditional values join two ways that leave one value each.
-/

namespace JvmAssembler

/-! ## Labels -/

theorem Later.old_subset {targets : List Label} {s t : State} (later : Later targets s t) :
    s.old ⊆ t.old :=
  fun _ old => Nat.lt_of_lt_of_le old later.nextLabel_le

/-- What handing out a label does. -/
structure State.Opens (s t : State) (label : Label) : Prop where
  frame_eq : t.frame = s.frame
  probed_eq : t.probed = s.probed
  fresh : label ∉ s.old
  old : label ∈ t.old
  older : s.old ⊆ t.old

section Labels

variable {result : JType} {pending : Set Label} {targets targets' : List Label}
variable {s t u : State} {ctx : Context} {label : Label}

/-- A part of a run that begins by handing out a label. -/
theorem Passes.opened (run : Gen.newLabel s = .ok label u)
    (rest : Passes result pending targets' u t) (more : targets' ⊆ label :: targets) :
    Passes result pending targets s t := by
  have later : Later targets s u := Gen.newLabel_later run
  have first : Passes result Set.univ targets' s u := by
    have unwritten : Later targets' s u := Gen.newLabel_later run
    obtain ⟨-, rfl⟩ := Gen.newLabel_eq_ok.mp run
    exact Passes.of_unwritten unwritten rfl rfl (.refl _)
  have whole := first.trans rest (Set.subset_univ _) (by simp) (List.Subset.refl _)
  refine { whole with later := later.trans rest.later fun other mem => ?_ }
  obtain ⟨rfl, rfl⟩ := Gen.newLabel_eq_ok.mp run
  rcases List.mem_cons.mp (more mem) with rfl | isTarget
  · exact .inr ⟨Nat.le_refl _, Nat.lt_succ_self _⟩
  · exact .inl isTarget

/-- Placing a label where control can be. -/
theorem Passes.of_place_alive (alive : s.frame.alive = true)
    (run : Gen.place ctx label s = .ok () t) : Passes result pending [label] s t := by
  obtain ⟨marks, stackEq, stillAlive, records⟩ := Gen.place_marks_of_alive alive run
  refine Passes.of_short (marks.later records) marks.instrs_eq le_rfl marks.grows
    fun shapes agree => ?_
  have known := agree.recorded label _ records.shape_self
  rw [marks.written_eq, State.view_of_alive alive, State.view_of_alive stillAlive, stackEq]
  simp [flow, flowStep, known]

/-- Placing a label that is not pending: from there on, its stack is known. -/
theorem Passes.of_place (old : label ∈ s.old) (settled : label ∉ pending)
    (run : Gen.place ctx label s = .ok () t) : Passes result pending [label] s t := by
  cases alive : s.frame.alive with
  | true => exact Passes.of_place_alive alive run
  | false =>
      obtain ⟨marks, shapesEq, aliveEq, stackEq⟩ := Gen.place_marks_of_dead alive run
      refine Passes.of_short (Gen.place_later run).2 marks.instrs_eq le_rfl marks.grows
        fun shapes agree => ?_
      have same : t.shape? label = s.frame.shapes.lookup label := by
        rw [State.shape?, shapesEq]
      simp only [marks.written_eq, State.view_of_dead alive, flow, flowStep, Option.bind_some]
      cases found : s.frame.shapes.lookup label with
      | some shape =>
          rw [found] at same aliveEq stackEq
          rw [agree.recorded label shape same, State.view_of_alive aliveEq, stackEq]
          rfl
      | none =>
          rw [found] at same aliveEq
          rw [agree.unrecorded label (by simpa [marks.nextLabel_eq] using old) settled same,
            State.view_of_dead aliveEq]

/-- Two ways that part at `other` and meet at `stop`. -/
theorem Passes.of_arms {s₀ s₁ s₂ s₃ s₄ : State} {other stop : Label} (older : s₀.old ⊆ s.old)
    (otherOld : other ∈ s.old) (otherNew : other ∉ s₀.old) (stopOld : stop ∈ s.old)
    (stopNew : stop ∉ s₀.old) (differ : other ≠ stop)
    (test : Passes result s.old [other] s s₁) (thenPart : Passes result s₁.old [stop] s₁ s₂)
    (placedOther : Gen.place ctx other s₂ = .ok () s₃)
    (elsePart : Passes result s₃.old [] s₃ s₄)
    (placedStop : Gen.place ctx stop s₄ = .ok () t) :
    Passes result s₀.old [other, stop] s t := by
  have upTo₂ : s.old ⊆ s₂.old := test.later.old_subset.trans thenPart.later.old_subset
  have upTo₃ : s.old ⊆ s₃.old := upTo₂.trans (Gen.place_later placedOther).2.old_subset
  have upTo₄ : s.old ⊆ s₄.old := upTo₃.trans elsePart.later.old_subset
  have stopping : Passes result s₀.old [stop] s₄ t :=
    Passes.of_place (upTo₄ stopOld) stopNew placedStop
  have afterOther : Passes result s₀.old [stop] s₃ t :=
    (elsePart.mono upTo₃ (by simp)).trans stopping older (by simpa using stopOld)
      (List.Subset.refl _)
  -- at `other` only `stop` may still be recorded
  have placing : Passes result (insert stop s₀.old) [other] s₂ s₃ :=
    Passes.of_place (upTo₂ otherOld) (by simpa [differ] using otherNew) placedOther
  have fromOther : Passes result s₀.old [other, stop] s₂ t :=
    (placing.mono (Set.Subset.refl _) (by simp)).trans afterOther (Set.subset_insert _ _)
      (by simp) (by simp)
  have labels : ∀ label ∈ [other, stop], label ∈ s.old := by
    simpa using ⟨otherOld, stopOld⟩
  have fromThen : Passes result s₀.old [other, stop] s₁ t :=
    (thenPart.mono test.later.old_subset (by simp)).trans fromOther older labels
      (List.Subset.refl _)
  exact (test.mono (Set.Subset.refl _) (by simp)).trans fromThen older labels (List.Subset.refl _)

/-- A part of a run that is skipped where control cannot be. -/
theorem Passes.of_whenAlive {action : Gen Unit}
    (passes : s.frame.alive = true → action s = .ok () t → Passes result pending targets s t)
    (run : Gen.whenAlive action s = .ok () t) : Passes result pending targets s t := by
  rcases Gen.whenAlive_eq_ok.mp run with ⟨alive, ran⟩ | ⟨-, rfl⟩
  · exact passes alive ran
  · exact Passes.refl s

end Labels

namespace Gen

/-! ## Runs of branches -/

/-- A run of a branch that leaves `stack` for the target and on the way
through. -/
structure Tests (result : JType) (types : Position → Option JType) (s t : State) (target : Label)
    (stack : List JType) : Prop extends Passes result s.old [target] s t where
  stack_eq : t.frame.alive = true → t.frame.stack = stack
  locals_eq : t.frame.locals = s.frame.locals
  scopes_eq : t.frame.scopes = s.frame.scopes
  knows : Knows types s → Knows types t
  target_shape : t.shape? target = s.shape? target ∨ t.shape? target = some stack
  dead : s.frame.alive = true → t.frame.alive = false → t.shape? target = some stack

/-- The runs of a branch keep the stack. -/
def Branching (result : JType) (locals : LocalTable) (types : Position → Option JType)
    (branch : Branch) : Prop :=
  ∀ ⦃s t sense target⦄, Ready locals types s → target ∈ s.old → branch sense target s = .ok () t →
    Tests result types s t target s.frame.stack

section

variable {result : JType} {ctx : Context} {locals : LocalTable}
variable {types : Position → Option JType} {s t u : State} {code : Gen Unit}
variable {type : Option JType} {label target : Label} {stack middle : List JType} {sense : Bool}

namespace Tests

theorem refl (stackEq : s.frame.alive = true → s.frame.stack = stack) :
    Tests result types s s target stack where
  toPasses := Passes.refl s
  stack_eq := stackEq
  locals_eq := rfl
  scopes_eq := rfl
  knows := id
  target_shape := .inl rfl
  dead := by simp +contextual

theorem tidy (tests : Tests result types s t target stack) (tidy : Tidy locals types s)
    (known : target ∈ s.old) : Tidy locals types t where
  locals_eq := tests.locals_eq.trans tidy.locals_eq
  matched := tidy.matched
  shapesBelow := tests.later.shapesBelow tidy.shapesBelow (by simpa using known)
  knows := tests.knows tidy.knows

/-- A branch after a branch to the same target. -/
theorem trans (first : Tests result types s u target stack)
    (second : Tests result types u t target stack) (known : target ∈ s.old) :
    Tests result types s t target stack where
  toPasses := first.toPasses.seq second.toPasses (by simpa using known) (List.Subset.refl _)
  stack_eq := second.stack_eq
  locals_eq := second.locals_eq.trans first.locals_eq
  scopes_eq := second.scopes_eq.trans first.scopes_eq
  knows := second.knows ∘ first.knows
  target_shape := by
    rcases second.target_shape with kept | recorded
    · rw [kept]
      exact first.target_shape
    · exact .inr recorded
  dead := by
    intro alive dead
    cases middle : u.frame.alive with
    | true => exact second.dead middle dead
    | false => exact second.later.shape_kept _ _ (first.dead alive middle)

theorem of_whenAlive {action : Gen Unit}
    (tests : s.frame.alive = true → action s = .ok () t → Tests result types s t target stack)
    (run : whenAlive action s = .ok () t) : Tests result types s t target stack := by
  rcases whenAlive_eq_ok.mp run with ⟨alive, ran⟩ | ⟨dead, rfl⟩
  · exact tests alive ran
  · exact refl (by simp [dead])

end Tests

/-- Operands, then a branch on them. -/
theorem Goes.tests (goes : Goes result types s u middle)
    (tests : Tests result types u t target stack) (known : target ∈ s.old) :
    Tests result types s t target stack where
  toPasses := (goes.toPasses.mono (Set.Subset.refl _) (by simp)).seq tests.toPasses
    (by simpa using known) (List.Subset.refl _)
  stack_eq := tests.stack_eq
  locals_eq := tests.locals_eq.trans goes.locals_eq
  scopes_eq := tests.scopes_eq.trans goes.scopes_eq
  knows := tests.knows ∘ goes.knows
  target_shape := by
    rw [← goes.later.shape_eq target known (by simp)]
    exact tests.target_shape
  dead := fun _ => tests.dead goes.alive

/-- A branch instruction, after the operands it takes were popped and plain
instructions worked on them. -/
theorem jump_tests {op : Opcode} {instrs : List Instr} (taken : List Category)
    (alive : s.frame.alive = true) (popped : Emits s u instrs stack)
    (plain : ∀ instr ∈ instrs, instr.isPlain = true)
    (steps : afterAll? instrs (s.frame.stack.map JType.category) =
      some (taken ++ stack.map JType.category))
    (effect : (Instr.jump op target).effect? = some ⟨taken, []⟩)
    (short : instrs.length ≤ 1)
    (narrow : slots (taken ++ stack.map JType.category) ≤ slots (s.frame.stack.map JType.category))
    (run : jump ctx op target u = .ok () t) : Tests result types s t target stack := by
  obtain ⟨marks, stackEq, aliveEq, records⟩ := jump_marks run
  rw [popped.stack_eq] at stackEq records
  have grown : t.code = s.code ++ (instrs ++ [.jump op target]) := by
    rw [← List.append_assoc, ← show u.code = s.code ++ instrs from popped.instrs_eq]
    exact marks.instrs_eq
  have before : Later [target] s u := Later.of_shapes popped.nextLabel_eq popped.shapes_eq
  have sameShape : u.shape? target = s.shape? target := by simp [State.shape?, popped.shapes_eq]
  have grows := popped.grows.trans marks.grows
  have jumps {shapes : Label → Option (List Category)} (agree : t.Settled s.old shapes) :
      flow result shapes (some (taken ++ stack.map JType.category)) [.jump op target] =
        some t.view := by
    have known := agree.recorded target stack records.shape_self
    have after := Instr.after?_append effect (stack.map JType.category)
    have noReturn : (Instr.jump op target).returnsAs result := by
      simp [Instr.returnsAs, Instr.returned?]
    have viewed : t.view = if op != .goto then some (stack.map JType.category) else none := by
      simp [State.view, aliveEq, popped.alive_eq, alive, stackEq]
    rw [viewed]
    simp [flow, flowStep, after, noReturn, Instr.agreesAt, known, Instr.continues]
  refine
    { later := before.trans_subset (marks.later records) (List.Subset.refl _)
      code_eq := by rw [written_eq grown, grown]
      flows := fun shapes agree => ?_
      grows := grows
      below := fun sized shapes agree => ?_
      stack_eq := fun _ => stackEq
      locals_eq := marks.locals_eq.trans popped.locals_eq
      scopes_eq := marks.scopes_eq.trans popped.scopes_eq
      knows := by simp [Knows, marks.probed_eq, popped.probed_eq]
      target_shape := .inr records.shape_self
      dead := fun _ _ => records.shape_self }
  · rw [written_eq grown, State.view_of_alive alive]
    exact flow_trans (flow_of_afterAll? plain steps) (jumps agree)
  · have enters := sized.stack_fits.slotsWithin.mono grows.maxStack_le
    rw [written_eq grown, State.view_of_alive alive]
    refine (StaysWithin.of_short short ?_ fun left here counted => ?_).concat fun left here => ?_
    · rintro _ ⟨⟩
      exact enters
    · -- what the branch takes is no wider than what was there before
      have small := counted.entry short plain here
      rw [flow_of_afterAll? plain steps] at here
      cases here
      exact narrow.trans (enters small)
    · rw [flow_trans (flow_of_afterAll? plain steps) (jumps agree)] at here
      exact State.slotsWithin_view (grows.sized sized) (Option.some.inj here)

/-- An unconditional jump. -/
theorem goto_tests (alive : s.frame.alive = true) (run : jump ctx .goto target s = .ok () t) :
    Tests result types s t target s.frame.stack :=
  jump_tests [] alive (Emits.refl s) (by simp) rfl rfl (Nat.zero_le _) le_rfl run

/-- A branch instruction on operands that were popped. -/
theorem popped_tests {op : Opcode} (takes : List JType) (alive : s.frame.alive = true)
    (stackEq : s.frame.stack = takes ++ stack) (popped : Emits s u [] stack)
    (effect : (Instr.jump op target).effect? = some ⟨takes.map JType.category, []⟩)
    (run : jump ctx op target u = .ok () t) : Tests result types s t target stack :=
  jump_tests (takes.map JType.category) alive popped (by simp)
    (by rw [stackEq, List.map_append]; rfl) effect (Nat.zero_le _) (by simp [stackEq]) run

/-! ## Leaves -/

theorem constBranch_branching (value : Bool) :
    Branching result locals types (constBranch ctx value) := by
  intro s t sense target ready _ run
  unfold constBranch at run
  split at run
  · exact goto_tests ready.alive run
  · obtain ⟨-, rfl⟩ := pure_eq_ok.mp run
    exact Tests.refl fun _ => rfl

theorem truthBranch_branching (wanted : Bool)
    (evaluates : Evaluates ctx.result locals types code type) :
    Branching ctx.result locals types (truthBranch ctx wanted code) := by
  intro s t sense target ready known run
  obtain ⟨_, s₁, valued, run⟩ := bind_eq_ok.mp run
  obtain ⟨_, s₂, coerced, run⟩ := bind_eq_ok.mp run
  obtain ⟨_, s₃, popping, jumped⟩ := bind_eq_ok.mp run
  obtain ⟨-, goes⟩ := evaluates.coerced ready valued coerced
  obtain ⟨below, stackEq, popped⟩ := pop_emits popping
  obtain ⟨rfl, rfl⟩ := List.cons.inj (stackEq.symm.trans goes.stack_eq)
  refine goes.tests (popped_tests [.boolean] goes.alive stackEq popped ?_ jumped) known
  split <;> rfl

theorem nullBranch_branching (wanted : Bool) {operand : Operand}
    (typed : OfOperand ctx.result locals types operand type) :
    Branching ctx.result locals types (nullBranch ctx wanted operand) := by
  intro s t sense target ready known run
  obtain ⟨ty, s₁, probed, run⟩ := bind_eq_ok.mp run
  obtain ⟨notPrimitive, run⟩ := check_eq_ok.mp run
  obtain ⟨found, s₂, valued, run⟩ := bind_eq_ok.mp run
  obtain ⟨_, s₃, popping, jumped⟩ := bind_eq_ok.mp run
  obtain ⟨isType, probes⟩ := typed.probe ready probed
  obtain ⟨isFound, -, goes⟩ := typed.evaluates.value (probes.ready ready) valued
  obtain rfl : ty = found := Option.some.inj (isType.symm.trans isFound)
  obtain ⟨below, stackEq, popped⟩ := pop_emits popping
  obtain ⟨rfl, rfl⟩ := List.cons.inj (goes.stack_eq.symm.trans stackEq)
  have goes := probes.trans goes
  rw [← probes.stack_eq]
  refine goes.tests (popped_tests [ty] goes.alive stackEq popped ?_ jumped) known
  rw [List.map_singleton, JType.category_of_notPrimitive (by simpa using notPrimitive)]
  split <;> rfl

/-! ## Comparisons -/

theorem comparands_goes {left right : Operand} {ty : JType} {leftType rightType : Option JType}
    (typedLeft : OfOperand ctx.result locals types left leftType)
    (typedRight : OfOperand ctx.result locals types right rightType)
    (ready : Ready locals types s) (run : comparands ctx left right ty s = .ok () t) :
    Goes ctx.result types s t (ty :: ty :: s.frame.stack) := by
  obtain ⟨_, s₁, valued, run⟩ := bind_eq_ok.mp run
  obtain ⟨_, s₂, coerced, run⟩ := bind_eq_ok.mp run
  obtain ⟨_, s₃, valuedRight, coercedRight⟩ := bind_eq_ok.mp run
  obtain ⟨-, first⟩ := typedLeft.evaluates.coerced ready valued coerced
  obtain ⟨-, second⟩ := typedRight.evaluates.coerced (first.ready ready) valuedRight coercedRight
  rw [first.stack_eq] at second
  exact first.trans second

/-- Both operands as they are. -/
theorem values_goes {left right : Operand} {leftType rightType foundLeft foundRight : JType}
    (typedLeft : OfOperand ctx.result locals types left (some leftType))
    (typedRight : OfOperand ctx.result locals types right (some rightType))
    (ready : Ready locals types s) (valuedLeft : value left.code s = .ok foundLeft u)
    (valuedRight : value right.code u = .ok foundRight t) :
    Goes ctx.result types s t (rightType :: leftType :: s.frame.stack) := by
  obtain ⟨isLeft, -, first⟩ := typedLeft.evaluates.value ready valuedLeft
  obtain ⟨isRight, -, second⟩ := typedRight.evaluates.value (first.ready ready) valuedRight
  cases isLeft
  cases isRight
  rw [first.stack_eq] at second
  exact first.trans second

theorem numericBranch_tests {left right : JType} {p : Primitive} {op : RelOp} {nan : Bool}
    (alive : s.frame.alive = true) (stackEq : s.frame.stack = right :: left :: stack)
    (isLeft : left.category = p.category) (isRight : right.category = p.category)
    (promoted : p.isPromoted) (run : numericBranch ctx p op nan target s = .ok () t) :
    Tests result types s t target stack := by
  obtain ⟨_, s₁, popping, run⟩ := bind_eq_ok.mp run
  obtain ⟨-, popped⟩ := popN_emits popping
  rw [stackEq] at popped
  cases found : comparison? p op nan with
  | some code =>
      simp only [found] at run
      obtain ⟨_, s₂, emitted, jumped⟩ := bind_eq_ok.mp run
      obtain ⟨plain, effect⟩ := Instr.effect?_comparison found
      have compared := popped.trans (emit_emits plain emitted)
      rw [popped.stack_eq] at compared
      refine jump_tests [.int] alive compared (by simpa using plain) ?_
        (Instr.effect?_zeroBranch op target) le_rfl ?_ jumped
      · rw [stackEq, List.map_cons, List.map_cons, isLeft, isRight]
        exact afterAll?_singleton effect _
      · have operand := left.category.width_pos
        have one : Category.int.width = 1 := rfl
        simp only [stackEq, List.map_cons, slots_cons, slots_append, slots_nil]
        omega
  | none =>
      simp only [found] at run
      have isInt : p.category = .int := by
        rcases promoted with rfl | rfl | rfl | rfl <;> simp [comparison?] at found
        rfl
      refine popped_tests [right, left] alive stackEq popped ?_ run
      rw [List.map_cons, List.map_singleton, isLeft, isRight, isInt]
      exact Instr.effect?_intBranch op target

theorem identityBranch_tests {left right : JType} {equal : Bool} (alive : s.frame.alive = true)
    (stackEq : s.frame.stack = right :: left :: stack)
    (isLeft : left.category = .reference) (isRight : right.category = .reference)
    (run : identityBranch ctx equal target s = .ok () t) :
    Tests result types s t target stack := by
  obtain ⟨_, s₁, popping, jumped⟩ := bind_eq_ok.mp run
  obtain ⟨-, popped⟩ := popN_emits popping
  rw [stackEq] at popped
  refine popped_tests [right, left] alive stackEq popped ?_ jumped
  rw [List.map_cons, List.map_singleton, isLeft, isRight]
  split <;> rfl

theorem compareBranch_branching {op : RelOp} {left right : Operand} {nan : Bool}
    {leftType rightType : Option JType}
    (typedLeft : OfOperand ctx.result locals types left leftType)
    (typedRight : OfOperand ctx.result locals types right rightType) :
    Branching ctx.result locals types (compareBranch ctx op left right nan) := by
  intro s t sense target ready known run
  obtain ⟨foundLeft, s₁, probedLeft, run⟩ := bind_eq_ok.mp run
  obtain ⟨foundRight, s₂, probedRight, run⟩ := bind_eq_ok.mp run
  obtain ⟨rfl, probesLeft⟩ := typedLeft.probe ready probedLeft
  obtain ⟨rfl, probesRight⟩ := typedRight.probe (probesLeft.ready ready) probedRight
  obtain ⟨-, run⟩ := check_eq_ok.mp run
  obtain ⟨-, run⟩ := check_eq_ok.mp run
  have probes := probesLeft.trans probesRight
  rw [probesLeft.stack_eq] at probes
  have readyToCompare := probes.ready ready
  -- whatever stands on the stack below is left for the target
  have compares {middle : State} (operands : List JType)
      (goes : Goes ctx.result types s₂ middle (operands ++ s₂.frame.stack))
      (tests : Tests ctx.result types middle t target s₂.frame.stack) :
      Tests ctx.result types s t target s.frame.stack := by
    rw [← probes.stack_eq]
    exact (probes.trans goes).tests tests known
  dsimp only at run
  generalize (if sense = true then op else op.negate) = branchOp at run
  generalize (if sense = true then nan else !nan) = branchNan at run
  split at run
  · rename_i identity
    simp only [Bool.and_eq_true] at identity
    obtain ⟨_, s₃, valuedLeft, run⟩ := bind_eq_ok.mp run
    obtain ⟨_, s₄, valuedRight, run⟩ := bind_eq_ok.mp run
    have goes := values_goes typedLeft typedRight readyToCompare valuedLeft valuedRight
    exact compares [_, _] goes (identityBranch_tests goes.alive goes.stack_eq
      (JType.category_of_isReference identity.1.1) (JType.category_of_isReference identity.1.2) run)
  split at run
  · obtain ⟨-, run⟩ := check_eq_ok.mp run
    obtain ⟨_, s₃, generated, run⟩ := bind_eq_ok.mp run
    obtain ⟨_, s₄, popping, jumped⟩ := bind_eq_ok.mp run
    have goes := comparands_goes typedLeft typedRight readyToCompare generated
    obtain ⟨-, popped⟩ := popN_emits popping
    rw [goes.stack_eq] at popped
    exact compares [_, _] goes (popped_tests [.boolean, .boolean] goes.alive
      goes.stack_eq popped (Instr.effect?_intBranch _ target) jumped)
  cases promoted : JType.binaryPromotion? foundLeft foundRight with
  | some p =>
      simp only [promoted] at run
      obtain ⟨_, s₃, generated, run⟩ := bind_eq_ok.mp run
      have goes := comparands_goes typedLeft typedRight readyToCompare generated
      exact compares [_, _] goes (numericBranch_tests goes.alive goes.stack_eq rfl rfl
        (JType.isPromoted_of_binaryPromotion? promoted) run)
  | none =>
      simp only [promoted] at run
      split at run
      · exact (throw_eq_ok.mp run).elim
      · obtain ⟨_, s₃, valuedLeft, run⟩ := bind_eq_ok.mp run
        obtain ⟨_, s₄, valuedRight, run⟩ := bind_eq_ok.mp run
        obtain ⟨_, s₅, coerced, run⟩ := bind_eq_ok.mp run
        have goes := values_goes typedLeft typedRight readyToCompare valuedLeft valuedRight
        obtain ⟨source, rest, stackEq, -, converts⟩ := coerceTop_goes goes.alive coerced
        obtain ⟨rfl, rfl⟩ := List.cons.inj (goes.stack_eq.symm.trans stackEq)
        exact compares [_, _] (goes.trans converts) (numericBranch_tests converts.alive
          converts.stack_eq (by simp) (by simp) (Primitive.isPromoted_computational _) run)
      · have notPrimitive := ‹∀ p, foundLeft = .primitive p → False›
        split at run
        · obtain ⟨_, s₃, valuedLeft, run⟩ := bind_eq_ok.mp run
          obtain ⟨_, s₄, valuedRight, run⟩ := bind_eq_ok.mp run
          obtain ⟨_, s₅, coerced, run⟩ := bind_eq_ok.mp run
          have goes := values_goes typedLeft typedRight readyToCompare valuedLeft valuedRight
          obtain ⟨source, rest, stackEq, -, converts⟩ := coerceTop_goes goes.alive coerced
          obtain ⟨rfl, rfl⟩ := List.cons.inj (goes.stack_eq.symm.trans stackEq)
          have isReference : foundLeft.isPrimitive = false := by
            cases foundLeft with
            | primitive p => exact (notPrimitive p rfl).elim
            | _ => rfl
          exact compares [_, _] (goes.trans converts) (identityBranch_tests converts.alive
            converts.stack_eq (JType.category_of_notPrimitive isReference) rfl run)
        · exact (throw_eq_ok.mp run).elim
      · exact (throw_eq_ok.mp run).elim

/-! ## Junctions -/

theorem eachBranch_tests {parts : List Branch}
    (branching : ∀ part ∈ parts, Branching result locals types part)
    (ready : Ready locals types s) (known : target ∈ s.old)
    (run : eachBranch parts sense target s = .ok () t) :
    Tests result types s t target s.frame.stack := by
  induction parts generalizing s with
  | nil =>
      obtain ⟨-, rfl⟩ := pure_eq_ok.mp run
      exact Tests.refl fun _ => rfl
  | cons part rest ih =>
      obtain ⟨_, u, ran, run⟩ := bind_eq_ok.mp run
      obtain ⟨alive, _, asked, run⟩ := bind_eq_ok.mp run
      obtain ⟨rfl, rfl⟩ := isAlive_eq_ok.mp asked
      have first := branching part (by simp) ready known ran
      split at run
      · rename_i alive
        have second := ih (fun part mem => branching part (by simp [mem]))
          ⟨first.tidy ready.toTidy known, alive⟩
          (Nat.lt_of_lt_of_le known first.later.nextLabel_le) run
        rw [first.stack_eq alive] at second
        exact first.trans second known
      · obtain ⟨-, rfl⟩ := pure_eq_ok.mp run
        exact first

theorem newLabel_opens (run : newLabel s = .ok label t) : s.Opens t label := by
  obtain ⟨rfl, rfl⟩ := newLabel_eq_ok.mp run
  exact ⟨rfl, rfl, by simp, by simp, fun _ old => Nat.lt_succ_of_lt old⟩

theorem Ready.opens (ready : Ready locals types s) (opens : s.Opens t label) :
    Ready locals types t ∧ t.shape? label = none := by
  refine ⟨⟨⟨?_, ready.matched, ?_, ?_⟩, ?_⟩, ?_⟩
  · rw [opens.frame_eq, ready.locals_eq]
  · intro other recorded
    rw [State.shape?, opens.frame_eq] at recorded
    exact opens.older (ready.shapesBelow other recorded)
  · simpa [Knows, opens.probed_eq] using ready.knows
  · rw [opens.frame_eq, ready.alive]
  · rw [State.shape?, opens.frame_eq]
    by_contra recorded
    exact opens.fresh (ready.shapesBelow label (Option.isSome_iff_ne_none.mpr recorded))

/-- Where a label is placed that was jumped to with one stack only. -/
theorem place_rejoins (run : place ctx label s = .ok () t)
    (shape : s.shape? label = none ∨ s.shape? label = some stack)
    (stackEq : s.frame.alive = true → s.frame.stack = stack) :
    (t.frame.alive = true → t.frame.stack = stack) ∧
      (t.frame.alive = false → s.frame.alive = false ∧ s.shape? label = none) := by
  cases alive : s.frame.alive with
  | true =>
      obtain ⟨-, stays, aliveEq, -⟩ := place_marks_of_alive alive run
      exact ⟨fun _ => stays.trans (stackEq alive), by simp [aliveEq]⟩
  | false =>
      obtain ⟨-, -, aliveEq, restored⟩ := place_marks_of_dead alive run
      unfold State.shape? at shape ⊢
      rcases shape with unrecorded | recorded
      · simp [aliveEq, unrecorded]
      · simp [aliveEq, restored, recorded]

theorem place_tidy (run : place ctx label s = .ok () t) (tidy : Tidy locals types s)
    (old : label ∈ s.old) : Tidy locals types t := by
  obtain ⟨marks, later⟩ := place_later run
  exact
    { locals_eq := marks.locals_eq.trans tidy.locals_eq
      matched := tidy.matched
      shapesBelow := later.shapesBelow tidy.shapesBelow (by simpa using old)
      knows := by simpa [Knows, marks.probed_eq] using tidy.knows }

theorem place_shape_eq {other : Label} (run : place ctx label s = .ok () t) (old : other ∈ s.old)
    (differs : other ≠ label) : t.shape? other = s.shape? other :=
  (place_later run).2.shape_eq other old (by simpa using differs)

theorem lastBranch_tests {parts : List Branch}
    (branching : ∀ part ∈ parts, Branching result locals types part)
    (ready : Ready locals types s) (known : target ∈ s.old)
    (run : lastBranch ctx parts sense target s = .ok () t) :
    Tests result types s t target s.frame.stack := by
  unfold lastBranch at run
  cases found : parts.getLast? with
  | none =>
      simp only [found] at run
      exact goto_tests ready.alive run
  | some last =>
      simp only [found] at run
      obtain ⟨skip, s₁, allocated, run⟩ := bind_eq_ok.mp run
      obtain ⟨_, s₂, others, run⟩ := bind_eq_ok.mp run
      obtain ⟨_, s₃, lastRun, placed⟩ := bind_eq_ok.mp run
      have opens := newLabel_opens allocated
      obtain ⟨ready₁, unrecorded⟩ := ready.opens opens
      have differ : target ≠ skip := fun same => opens.fresh (same ▸ known)
      have first := eachBranch_tests
        (fun part mem => branching part (List.dropLast_subset parts mem)) ready₁ opens.old others
      rw [opens.frame_eq] at first
      have second : Tests result types s₂ s₃ target s.frame.stack := by
        refine Tests.of_whenAlive (fun alive ran => ?_) lastRun
        rw [← first.stack_eq alive]
        exact branching last (List.mem_of_getLast? found) ⟨first.tidy ready₁.toTidy opens.old, alive⟩
          (first.later.old_subset (opens.older known)) ran
      have skipKept : s₃.shape? skip = s₂.shape? skip :=
        second.later.shape_eq skip (first.later.old_subset opens.old) (by simpa using differ.symm)
      have skipShape : s₃.shape? skip = none ∨ s₃.shape? skip = some s.frame.stack := by
        rw [skipKept]
        exact first.target_shape.imp_left fun same => same.trans unrecorded
      obtain ⟨rejoins, dead⟩ := place_rejoins placed skipShape second.stack_eq
      have targetOld : target ∈ s₂.old := first.later.old_subset (opens.older known)
      have targetKept : t.shape? target = s₃.shape? target :=
        place_shape_eq placed (second.later.old_subset targetOld) differ
      have skipOld : skip ∈ s₃.old := second.later.old_subset (first.later.old_subset opens.old)
      have placing : Passes result s.old [skip] s₃ t := Passes.of_place skipOld opens.fresh placed
      have lastPart : Passes result s.old [target, skip] s₂ t :=
        (second.toPasses.mono first.later.old_subset (by simp)).trans placing opens.older
          (by simpa using opens.old) (by simp)
      have parts : Passes result s.old [target, skip] s₁ t :=
        (first.toPasses.mono (Set.Subset.refl _) (by simp)).trans lastPart opens.older
          (by simpa using ⟨opens.older known, opens.old⟩) (List.Subset.refl _)
      have marks := (place_later placed).1
      exact
        { toPasses := Passes.opened allocated parts (by simp)
          stack_eq := rejoins
          locals_eq := by
            rw [marks.locals_eq, second.locals_eq, first.locals_eq, opens.frame_eq]
          scopes_eq := by
            rw [marks.scopes_eq, second.scopes_eq, first.scopes_eq, opens.frame_eq]
          knows := by
            intro knows
            have knows₁ : Knows types s₁ := by simpa [Knows, opens.probed_eq] using knows
            simpa [Knows, marks.probed_eq] using second.knows (first.knows knows₁)
          target_shape := by
            have before : s₂.shape? target = s.shape? target := by
              rw [first.later.shape_eq target (opens.older known) (by simpa using differ),
                State.shape?, State.shape?, opens.frame_eq]
            rw [targetKept, ← before]
            exact second.target_shape
          dead := by
            intro _ ends
            obtain ⟨lastDead, noSkip⟩ := dead ends
            rw [targetKept]
            refine second.dead ?_ lastDead
            by_contra othersDead
            have recorded := first.dead ready₁.alive (by simpa using othersDead)
            rw [skipKept, recorded] at noSkip
            contradiction }

theorem conjBranch_branching {parts : List Branch}
    (branching : ∀ part ∈ parts, Branching result locals types part) :
    Branching result locals types (conjBranch ctx parts) := by
  intro s t sense target ready known run
  unfold conjBranch at run
  split at run
  · exact lastBranch_tests branching ready known run
  · exact eachBranch_tests branching ready known run

theorem disjBranch_branching {parts : List Branch}
    (branching : ∀ part ∈ parts, Branching result locals types part) :
    Branching result locals types (disjBranch ctx parts) := by
  intro s t sense target ready known run
  unfold disjBranch at run
  split at run
  · exact eachBranch_tests branching ready known run
  · exact lastBranch_tests branching ready known run

/-! ## Conditional values -/

theorem goto_dead (run : jump ctx .goto target s = .ok () t) : t.frame.alive = false := by
  simp [(jump_marks run).2.2.1]

/-- The first way of a choice: a value, and on to the place where the ways
meet. -/
theorem firstWay_tests {way : Gen Unit} {ty : JType} {stop : Label}
    (goes : ∀ ⦃u⦄, s.frame.alive = true → way s = .ok () u →
      ty.isVoid = false ∧ Goes result types s u (ty :: stack))
    (known : stop ∈ s.old)
    (run : whenAlive (do
      way
      jump ctx .goto stop) s = .ok () t) :
    Tests result types s t stop (ty :: stack) ∧ t.frame.alive = false ∧
      (s.frame.alive = true → ty.isVoid = false) := by
  rcases whenAlive_eq_ok.mp run with ⟨alive, ran⟩ | ⟨dead, rfl⟩
  · obtain ⟨_, u, ran, jumped⟩ := bind_eq_ok.mp ran
    obtain ⟨notVoid, goes⟩ := goes alive ran
    have jumps : Tests result types u t stop u.frame.stack := goto_tests goes.alive jumped
    rw [goes.stack_eq] at jumps
    exact ⟨goes.tests jumps known, goto_dead jumped, fun _ => notVoid⟩
  · exact ⟨Tests.refl (by simp [dead]), dead, by simp [dead]⟩

/-- Two ways that leave one value of the same type each. -/
theorem choice_goes {cond : Branch} {whenTrue whenFalse : Gen Unit} {ty : JType}
    (branching : Branching ctx.result locals types cond)
    (thenGoes : ∀ ⦃s t⦄, Ready locals types s → whenTrue s = .ok () t →
      ty.isVoid = false ∧ Goes ctx.result types s t (ty :: s.frame.stack))
    (elseGoes : ∀ ⦃s t⦄, Ready locals types s → whenFalse s = .ok () t →
      ty.isVoid = false ∧ Goes ctx.result types s t (ty :: s.frame.stack))
    (ready : Ready locals types s)
    (run : (do
      let other ← newLabel
      let stop ← newLabel
      cond false other
      whenAlive do
        whenTrue
        jump ctx .goto stop
      place ctx other
      whenAlive whenFalse
      place ctx stop : Gen Unit) s = .ok () t) :
    ty.isVoid = false ∧ Goes ctx.result types s t (ty :: s.frame.stack) := by
  obtain ⟨other, s₁, allocated, run⟩ := bind_eq_ok.mp run
  obtain ⟨stop, s₂, allocatedStop, run⟩ := bind_eq_ok.mp run
  obtain ⟨_, s₃, tested, run⟩ := bind_eq_ok.mp run
  obtain ⟨_, s₄, thenRun, run⟩ := bind_eq_ok.mp run
  obtain ⟨_, s₅, placedOther, run⟩ := bind_eq_ok.mp run
  obtain ⟨_, s₆, elseRun, placedStop⟩ := bind_eq_ok.mp run
  have opens := newLabel_opens allocated
  have opensStop := newLabel_opens allocatedStop
  obtain ⟨ready₁, unrecorded₁⟩ := ready.opens opens
  obtain ⟨ready₂, stopUnrecorded⟩ := ready₁.opens opensStop
  have otherUnrecorded : s₂.shape? other = none := by
    rw [State.shape?, opensStop.frame_eq]
    exact unrecorded₁
  have otherOld : other ∈ s₂.old := opensStop.older opens.old
  have stopOld : stop ∈ s₂.old := opensStop.old
  have differ : other ≠ stop := fun same => opensStop.fresh (same ▸ opens.old)
  have stackEq : s₂.frame.stack = s.frame.stack := by rw [opensStop.frame_eq, opens.frame_eq]
  have test := branching ready₂ otherOld tested
  rw [stackEq] at test
  have upTo₃ := test.later.old_subset
  have tidy₃ := test.tidy ready₂.toTidy otherOld
  obtain ⟨thenPart, thenDead, thenValue⟩ := firstWay_tests
    (fun u alive ran => test.stack_eq alive ▸ thenGoes ⟨tidy₃, alive⟩ ran) (upTo₃ stopOld) thenRun
  have upTo₄ := upTo₃.trans thenPart.later.old_subset
  have tidy₅ := place_tidy placedOther (thenPart.tidy tidy₃ (upTo₃ stopOld)) (upTo₄ otherOld)
  have otherShape : s₄.shape? other = none ∨ s₄.shape? other = some s.frame.stack := by
    rw [thenPart.later.shape_eq other (upTo₃ otherOld) (by simpa using differ)]
    exact test.target_shape.imp_left fun same => same.trans otherUnrecorded
  obtain ⟨rejoins, missed⟩ := place_rejoins placedOther otherShape (by simp [thenDead])
  have upTo₅ := upTo₄.trans (place_later placedOther).2.old_subset
  have elsePart : s₅.frame.alive = true → ty.isVoid = false ∧
      Goes ctx.result types s₅ s₆ (ty :: s.frame.stack) := by
    intro alive
    rcases whenAlive_eq_ok.mp elseRun with ⟨_, ran⟩ | ⟨dead, -⟩
    · exact rejoins alive ▸ elseGoes ⟨tidy₅, alive⟩ ran
    · simp [alive] at dead
  obtain ⟨elsePasses, elseTidy, elseScopes, elseStack⟩ : Passes ctx.result s₅.old [] s₅ s₆ ∧
      Tidy locals types s₆ ∧ s₆.frame.scopes = s₅.frame.scopes ∧
      (s₆.frame.alive = true → s₆.frame.stack = ty :: s.frame.stack) := by
    rcases whenAlive_eq_ok.mp elseRun with ⟨alive, -⟩ | ⟨dead, rfl⟩
    · have goes := (elsePart alive).2
      exact ⟨goes.toPasses, (goes.ready ⟨tidy₅, alive⟩).toTidy, goes.scopes_eq,
        fun _ => goes.stack_eq⟩
    · exact ⟨Passes.refl s₅, tidy₅, rfl, by simp [dead]⟩
  have stopShape : s₆.shape? stop = s₄.shape? stop := by
    rw [elsePasses.later.shape_eq stop (upTo₅ stopOld) (by simp),
      place_shape_eq placedOther (upTo₄ stopOld) differ.symm]
  have stopRecorded : s₆.shape? stop = none ∨ s₆.shape? stop = some (ty :: s.frame.stack) := by
    rw [stopShape]
    refine thenPart.target_shape.imp_left fun same => ?_
    rw [same, test.later.shape_eq stop stopOld (by simpa using differ.symm), stopUnrecorded]
  obtain ⟨meets, apart⟩ := place_rejoins placedStop stopRecorded elseStack
  -- one of the two ways is taken
  have taken : s₃.frame.alive = true ∨ s₅.frame.alive = true := by
    by_contra neither
    simp only [not_or, Bool.not_eq_true] at neither
    have recorded := thenPart.later.shape_kept _ _ (test.dead ready₂.alive neither.1)
    rw [(missed neither.2).2] at recorded
    contradiction
  have alive : t.frame.alive = true := by
    by_contra dead
    obtain ⟨elseDead, unrecorded⟩ := apart (by simpa using dead)
    rcases taken with first | second
    · rw [stopShape, thenPart.dead first thenDead] at unrecorded
      contradiction
    · simp [(elsePart second).2.alive] at elseDead
  have passes := Passes.of_arms (opens.older.trans opensStop.older) otherOld opens.fresh stopOld
    (fun old => opensStop.fresh (opens.older old)) differ test.toPasses thenPart.toPasses placedOther
    elsePasses placedStop
  have opened : Passes ctx.result s.old [other] s₁ t :=
    Passes.opened allocatedStop passes (by simp)
  have tidy : Tidy locals types t :=
    place_tidy placedStop elseTidy (elsePasses.later.old_subset (upTo₅ stopOld))
  refine ⟨taken.elim thenValue fun second => (elsePart second).1, ?_⟩
  exact
    { toPasses := Passes.opened allocated opened (by simp)
      stack_eq := meets alive
      locals_eq := tidy.locals_eq.trans ready.locals_eq.symm
      scopes_eq := by
        rw [(place_later placedStop).1.scopes_eq, elseScopes, (place_later placedOther).1.scopes_eq,
          thenPart.scopes_eq, test.scopes_eq, opensStop.frame_eq, opens.frame_eq]
      alive := alive
      knows := fun _ => tidy.knows }

/-- One arm of a conditional: its scope ends with the locals it began with. -/
theorem arm_goes {ty : JType} (evaluates : Evaluates ctx.result locals types code type)
    (ready : Ready locals types s) (run : arm ctx ty code s = .ok () t) :
    ty.isVoid = false ∧ Goes ctx.result types s t (ty :: s.frame.stack) := by
  obtain ⟨u, start, rest, ran, scopesEq, rfl⟩ := inScope_eq_ok.mp run
  obtain ⟨_, v, valued, coerced⟩ := bind_eq_ok.mp ran
  have entered : Ready locals types s.entered :=
    ⟨⟨ready.locals_eq, ready.matched, ready.shapesBelow, ready.knows⟩, ready.alive⟩
  obtain ⟨notVoid, goes⟩ := evaluates.coerced entered valued coerced
  obtain ⟨rfl, rfl⟩ := List.cons.inj (goes.scopes_eq.symm.trans scopesEq)
  have sameLocals : u.frame.locals.take s.frame.locals.size = s.frame.locals := by
    rw [goes.locals_eq]
    exact (ready.locals_eq ▸ ready.matched : s.frame.locals.Matched).take_size
  refine ⟨notVoid, ?_⟩
  exact
    { toPasses := goes.toPasses.between ⟨rfl, rfl, rfl, .of_same rfl rfl rfl rfl⟩
        ⟨rfl, rfl, rfl, .of_same rfl rfl rfl rfl⟩ (by simp)
      stack_eq := goes.stack_eq
      locals_eq := sameLocals
      scopes_eq := rfl
      alive := goes.alive
      knows := goes.knows }

theorem conditional_goes {cond : Branch} {thenArm elseArm : Operand}
    {thenType elseType : Option JType} (branching : Branching ctx.result locals types cond)
    (typedThen : OfOperand ctx.result locals types thenArm thenType)
    (typedElse : OfOperand ctx.result locals types elseArm elseType)
    (ready : Ready locals types s) (run : conditional ctx cond thenArm elseArm s = .ok () t) :
    ∃ foundThen foundElse ty, thenType = some foundThen ∧ elseType = some foundElse ∧
      JType.common ctx.table ctx.config.narrowReinterpretation foundThen foundElse = .ok ty ∧
      ty.isVoid = false ∧ Goes ctx.result types s t (ty :: s.frame.stack) := by
  obtain ⟨foundThen, s₁, probedThen, run⟩ := bind_eq_ok.mp run
  obtain ⟨foundElse, s₂, probedElse, run⟩ := bind_eq_ok.mp run
  obtain ⟨isThen, probesThen⟩ := typedThen.probe ready probedThen
  obtain ⟨isElse, probesElse⟩ := typedElse.probe (probesThen.ready ready) probedElse
  have probes := probesThen.trans probesElse
  cases common : JType.common ctx.table ctx.config.narrowReinterpretation foundThen foundElse with
  | error e =>
      simp only [common] at run
      exact (throw_eq_ok.mp run).elim
  | ok ty =>
      simp only [common] at run
      obtain ⟨notVoid, goes⟩ := choice_goes branching
        (fun _ _ ready ran => arm_goes typedThen.evaluates ready ran)
        (fun _ _ ready ran => arm_goes typedElse.evaluates ready ran) (probes.ready ready) run
      have goes := probes.trans goes
      rw [probesElse.stack_eq, probesThen.stack_eq] at goes
      exact ⟨foundThen, foundElse, ty, isThen, isElse, common, notVoid, goes⟩

theorem condValue_goes {cond : Branch} (branching : Branching ctx.result locals types cond)
    (ready : Ready locals types s) (run : condValue ctx cond s = .ok () t) :
    Goes ctx.result types s t (.boolean :: s.frame.stack) :=
  (choice_goes branching (fun _ _ ready ran => ⟨rfl, boolean_goes ready.alive ran⟩)
    (fun _ _ ready ran => ⟨rfl, boolean_goes ready.alive ran⟩) ready run).2

/-- An operation around its body. -/
theorem operation_goes {name : String} {body : Gen Unit} {property : List JType → Prop}
    (goes : ∀ ⦃u v⦄, Ready locals types u → u.frame.stack = s.frame.stack → body u = .ok () v →
      ∃ stack, property stack ∧ Goes result types u v stack)
    (ready : Ready locals types s) (run : operation name body s = .ok () t) :
    ∃ stack, property stack ∧ Goes result types s t stack := by
  obtain ⟨-, u, ran, rfl⟩ := operation_eq_ok.mp run
  have deeper : Ready locals types { s with depth := s.depth + 1 } :=
    ⟨⟨ready.locals_eq, ready.matched, ready.shapesBelow, ready.knows⟩, ready.alive⟩
  obtain ⟨stack, holds, goes⟩ := goes deeper rfl ran
  refine ⟨stack, holds, ?_⟩
  exact
    { toPasses := goes.toPasses.between ⟨rfl, rfl, rfl, .refl _⟩ ⟨rfl, rfl, rfl, .refl _⟩ (by simp)
      stack_eq := goes.stack_eq
      locals_eq := goes.locals_eq
      scopes_eq := goes.scopes_eq
      alive := goes.alive
      knows := by
        intro knows p ty found
        by_cases outermost : s.depth = 0
        · simp [State.leave, outermost] at found
        · exact goes.knows knows p ty (by simpa [State.leave, outermost] using found) }

end

end Gen

end JvmAssembler
