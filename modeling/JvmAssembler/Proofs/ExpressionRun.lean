import Mathlib
import JvmAssembler.Proofs.OperandFlow
import JvmAssembler.Proofs.ScopeLayout

/-!
# What the code of expressions does

Where the variables of an environment are laid out in the local slots, the code
of an expression pushes its value in the environment, and the code of a
condition goes to its target exactly if the condition has the asked sense there.
Types that the generator finds are those that evaluation goes by.

The statements are about a generator that probes operands afresh, so that its
memory of types stays empty.
-/

namespace JvmAssembler

/-! ## Expressions are value chains -/

theorem Fragment.isValueChain_concat {fragment : Fragment} {op : Op}
    (chain : fragment.isValueChain = true) (modifier : op.isModifier = true) :
    Fragment.isValueChain (fragment ++ [op]) = true := by
  cases fragment with
  | nil => contradiction
  | cons first rest =>
      simp only [isValueChain, Bool.and_eq_true] at chain
      simp [isValueChain, chain, modifier]

theorem IntExpr.isValueChain_ops (e : IntExpr) : Fragment.isValueChain e.ops = true := by
  cases e with
  | load | int | long | boolean | conditional | condValue => rfl
  | arith op left right => exact Fragment.isValueChain_concat left.isValueChain_ops rfl
  | negate operand => exact Fragment.isValueChain_concat operand.isValueChain_ops rfl
  | cast target operand => exact Fragment.isValueChain_concat operand.isValueChain_ops rfl

theorem operandsIn_append (first second : List Op) :
    operandsIn (first ++ second) = operandsIn first ++ operandsIn second := by
  induction first with
  | nil => rfl
  | cons op rest ih => simp [operandsIn, ih]

mutual

theorem IntExpr.isValueChain_of_mem : (e : IntExpr) →
    ∀ operand ∈ operandsIn e.ops, operand.isValueChain = true
  | .load _ | .int _ | .long _ | .boolean _ => by simp [IntExpr.ops, operandsIn, Op.operands]
  | .arith _ left right => by
      simp only [IntExpr.ops, operandsIn_append, operandsIn, Op.operands, List.append_nil,
        List.mem_append, List.mem_cons]
      rintro operand (mem | rfl | mem)
      · exact left.isValueChain_of_mem operand mem
      · exact right.isValueChain_ops
      · exact right.isValueChain_of_mem operand mem
  | .negate inner | .cast _ inner => by
      simp only [IntExpr.ops, operandsIn_append, operandsIn, Op.operands, List.append_nil]
      exact inner.isValueChain_of_mem
  | .conditional cond thenArm elseArm => by
      simp only [IntExpr.ops, operandsIn, Op.operands, List.append_nil, List.mem_append,
        List.mem_cons]
      rintro operand ((mem | rfl | mem) | rfl | mem)
      · exact cond.isValueChain_of_mem operand mem
      · exact thenArm.isValueChain_ops
      · exact thenArm.isValueChain_of_mem operand mem
      · exact elseArm.isValueChain_ops
      · exact elseArm.isValueChain_of_mem operand mem
  | .condValue cond => by
      simp only [IntExpr.ops, operandsIn, Op.operands, List.append_nil]
      exact cond.isValueChain_of_mem

theorem IntCond.isValueChain_of_mem : (c : IntCond) →
    ∀ operand ∈ c.cond.operands, operand.isValueChain = true
  | .const _ => by simp [IntCond.cond, Cond.operands]
  | .truth value | .falsity value => by
      simp only [IntCond.cond, Cond.operands, List.mem_cons]
      rintro operand (rfl | mem)
      · exact value.isValueChain_ops
      · exact value.isValueChain_of_mem operand mem
  | .compare _ left right _ => by
      simp only [IntCond.cond, Cond.operands, List.mem_cons, List.cons_append, List.mem_append]
      rintro operand (rfl | mem | rfl | mem)
      · exact left.isValueChain_ops
      · exact left.isValueChain_of_mem operand mem
      · exact right.isValueChain_ops
      · exact right.isValueChain_of_mem operand mem
  | .conj parts | .disj parts => by
      simp only [IntCond.cond, Cond.operands]
      exact isValueChain_of_mem_parts parts

theorem isValueChain_of_mem_parts : (parts : List IntCond) →
    ∀ operand ∈ operandsInParts (condsOf parts), operand.isValueChain = true
  | [] => by simp [condsOf, operandsInParts]
  | part :: rest => by
      simp only [condsOf, operandsInParts, List.mem_append]
      rintro operand (mem | mem)
      · exact part.isValueChain_of_mem operand mem
      · exact isValueChain_of_mem_parts rest operand mem

end

/-! ## Scopes in the frame -/

/-- The variables of a scope are laid out in the frame, and no types are
remembered. -/
structure Laid (isStatic : Bool) (scope : List (String × IntType)) (scopes : List Nat)
    (s : State) : Prop where
  locals_eq : s.frame.locals = .ofSlots (layout isStatic scope)
  scopes_eq : s.frame.scopes = scopes
  fits : Fits isStatic scope
  shapesBelow : s.ShapesBelow
  probed_eq : s.probed = ∅

/-- The setting in which expressions are run. -/
def laying (store : Store) (isStatic : Bool) (scope : List (String × IntType))
    (scopes : List Nat) : Setting :=
  ⟨false, store, Laid isStatic scope scopes⟩

open Gen

namespace Laid

variable {isStatic : Bool} {scope inner : List (String × IntType)} {scopes : List Nat}
variable {s t : State}

theorem of_eq (laid : Laid isStatic scope scopes s) (locals : t.frame.locals = s.frame.locals)
    (sameScopes : t.frame.scopes = s.frame.scopes) (probed : t.probed = s.probed)
    (shapesBelow : t.ShapesBelow) : Laid isStatic scope scopes t where
  locals_eq := locals.trans laid.locals_eq
  scopes_eq := sameScopes.trans laid.scopes_eq
  fits := laid.fits
  shapesBelow := shapesBelow
  probed_eq := probed.trans laid.probed_eq

theorem stable : Stable (Laid isStatic scope scopes) where
  emits s t _ _ emits laid := by
    have later : Later [] s t := Later.of_shapes emits.nextLabel_eq emits.shapes_eq
    exact laid.of_eq emits.locals_eq emits.scopes_eq emits.probed_eq
      (later.shapesBelow laid.shapesBelow (by simp))
  jump _ _ _ _ _ known run laid := by
    obtain ⟨marks, -, -, records⟩ := jump_marks run
    exact laid.of_eq marks.locals_eq marks.scopes_eq marks.probed_eq
      ((marks.later records).shapesBelow laid.shapesBelow (by simpa using known))
  newLabel _ s t run laid := by
    have opens := newLabel_opens run
    have later : Later [] s t := newLabel_later run
    exact laid.of_eq (by rw [opens.frame_eq]) (by rw [opens.frame_eq]) opens.probed_eq
      (later.shapesBelow laid.shapesBelow (by simp))
  place _ _ _ _ known run laid := by
    obtain ⟨marks, later⟩ := place_later run
    exact laid.of_eq marks.locals_eq marks.scopes_eq marks.probed_eq
      (later.shapesBelow laid.shapesBelow (by simpa using known))

theorem dryRun (laid : Laid isStatic scope scopes s) : Laid isStatic scope scopes s.dryRun :=
  laid.of_eq rfl rfl rfl (by simp [State.ShapesBelow, State.shape?, State.dryRun, Frame.fork])

theorem deeper (laid : Laid isStatic scope scopes s) (depth : Nat) :
    Laid isStatic scope scopes { s with depth } :=
  laid.of_eq rfl rfl rfl laid.shapesBelow

theorem leave (laid : Laid isStatic scope scopes s) (depth : Nat) :
    Laid isStatic scope scopes (s.leave depth) :=
  laid.of_eq rfl rfl (by simp [State.leave, laid.probed_eq]) laid.shapesBelow

theorem entered (laid : Laid isStatic scope scopes s) :
    Laid isStatic scope ((layout isStatic scope).length :: scopes) s.entered where
  locals_eq := laid.locals_eq
  scopes_eq := by simp [State.entered, laid.locals_eq, laid.scopes_eq]
  fits := laid.fits
  shapesBelow := laid.shapesBelow
  probed_eq := laid.probed_eq

/-- The variables of an inner scope are dropped at its end. -/
theorem left (laid : Laid isStatic (inner ++ scope) ((layout isStatic scope).length :: scopes) s) :
    Laid isStatic scope scopes (s.left (layout isStatic scope).length scopes) where
  locals_eq := by
    simp [State.left, laid.locals_eq, LocalTable.take_ofSlots, take_layout_append]
  scopes_eq := rfl
  fits := laid.fits.of_append
  shapesBelow := laid.shapesBelow
  probed_eq := laid.probed_eq

/-- Value chains can be given types in such a state. -/
theorem exists_ready {operands : List Fragment} {operandAt? : List Nat → Option Fragment}
    (laid : Laid isStatic scope scopes s) (alive : s.frame.alive = true) (ctx : Context)
    (pos : Position) (chains : ∀ operand ∈ operands, operand.isValueChain = true) :
    ∃ types, Ready s.frame.locals types s ∧
      Known ctx s.frame.locals types pos operands operandAt? := by
  obtain ⟨types, knows, known⟩ : ∃ types, Knows types s ∧
      Known ctx s.frame.locals types pos operands operandAt? :=
    exists_known ctx pos s chains fun _ _ _ => by simp [laid.probed_eq]
  have matched : s.frame.locals.Matched := laid.locals_eq ▸ LocalTable.matched_ofSlots _
  exact ⟨types, ⟨⟨rfl, matched, laid.shapesBelow, knows⟩, alive⟩, known⟩

/-- What is known of the stack after a condition. -/
theorem condition_flow {ctx : Context} (laid : Laid isStatic scope scopes s)
    (alive : s.frame.alive = true) (pos : Position) (cond : IntCond) :
    ∃ types, Ready s.frame.locals types s ∧
      Branching ctx.result s.frame.locals types (cond.cond.branch ctx pos) := by
  obtain ⟨types, ready, known⟩ : ∃ types, Ready s.frame.locals types s ∧
      Known ctx s.frame.locals types pos cond.cond.operands cond.cond.operandAt? :=
    laid.exists_ready alive ctx pos cond.isValueChain_of_mem
  exact ⟨types, ready, cond.cond.branch_branching ctx _ types pos known⟩

/-- What is known of the stack after a condition and two arms. -/
theorem conditional_flow {ctx : Context} (laid : Laid isStatic scope scopes s)
    (alive : s.frame.alive = true) (pos : Position) (cond : IntCond) (thenArm elseArm : IntExpr) :
    ∃ types, Ready s.frame.locals types s ∧
      Branching ctx.result s.frame.locals types (cond.cond.branch ctx (0 :: pos)) ∧
      OfOperand ctx.result s.frame.locals types ⟨1 :: pos, codeFrom ctx (1 :: pos) 0 thenArm.ops⟩
        (Fragment.type? ctx s.frame.locals thenArm.ops) ∧
      OfOperand ctx.result s.frame.locals types ⟨2 :: pos, codeFrom ctx (2 :: pos) 0 elseArm.ops⟩
        (Fragment.type? ctx s.frame.locals elseArm.ops) := by
  have chains : ∀ operand ∈ (Op.conditional cond.cond thenArm.ops elseArm.ops).operands,
      operand.isValueChain = true := by
    simpa [IntExpr.ops, operandsIn] using
      (IntExpr.conditional cond thenArm elseArm).isValueChain_of_mem
  obtain ⟨types, ready, known⟩ : ∃ types, Ready s.frame.locals types s ∧
      Known ctx s.frame.locals types pos (Op.conditional cond.cond thenArm.ops elseArm.ops).operands
        (Op.conditional cond.cond thenArm.ops elseArm.ops).operandAt? :=
    laid.exists_ready alive ctx pos chains
  refine ⟨types, ready, ?_, ?_, ?_⟩
  · exact cond.cond.branch_branching ctx _ types (0 :: pos)
      (known.child 0 (by simp [Op.operands]) fun _ _ found => found)
  · exact (known.operand 1
      (List.Subset.trans (List.subset_append_right _ _) (List.subset_append_left _ _))
      fun _ => rfl).ofOperand
  · exact (known.operand 2 (List.subset_append_right _ _) fun _ => rfl).ofOperand

end Laid

/-! ## Code in operations and scopes -/

namespace Gen

variable {ctx : Context} {setting setting' : Setting} {s s' t t' u : State} {pos : Position}
variable {targets : List Label} {before after : List Value} {loads : List Instr}
variable {exit : Option Label} {ty : JType} {value : Value}

theorem codeFrom_append_eq_ok {index : Nat} {first second : List Op} :
    codeFrom ctx pos index (first ++ second) s = .ok () t ↔
      ∃ u, codeFrom ctx pos index first s = .ok () u ∧
        codeFrom ctx pos (index + first.length) second u = .ok () t := by
  induction first generalizing index s with
  | nil =>
      simp only [List.nil_append, codeFrom, pure_eq_ok, List.length_nil, Nat.add_zero]
      exact ⟨fun run => ⟨s, ⟨trivial, rfl⟩, run⟩, fun ⟨_, ⟨_, rfl⟩, run⟩ => run⟩
  | cons op rest ih =>
      simp only [List.cons_append, codeFrom, bind_eq_ok, ih, List.length_cons]
      rw [show index + (rest.length + 1) = index + 1 + rest.length by omega]
      constructor
      · rintro ⟨_, v, ran, u, others, run⟩
        exact ⟨u, ⟨(), v, ran, others⟩, run⟩
      · rintro ⟨u, ⟨_, v, ran, others⟩, run⟩
        exact ⟨(), v, ran, u, others, run⟩

theorem codeFrom_singleton_eq_ok {index : Nat} {op : Op} :
    codeFrom ctx pos index [op] s = .ok () t ↔
      s.frame.alive = true ∧
        ∃ u, op.body ctx (index :: pos) { s with depth := s.depth + 1 } = .ok () u ∧
          t = u.leave s.depth := by
  simp only [codeFrom, bind_eq_ok, pure_eq_ok]
  constructor
  · rintro ⟨_, u, ran, -, rfl⟩
    exact operation_eq_ok.mp ran
  · exact fun ran => ⟨(), t, operation_eq_ok.mpr ran, trivial, rfl⟩

/-- Only the output and the recorded shapes of the states matter. -/
theorem Executes.congr (executes : Executes setting targets before loads exit after s t)
    (watching : setting'.watching = setting.watching) (store : setting'.store = setting.store)
    (shapes : s'.frame.shapes = s.frame.shapes) (output : s'.output = s.output)
    (endShapes : t'.frame.shapes = t.frame.shapes) (endOutput : t'.output = t.output)
    (keeps : setting'.inv t') : Executes setting' targets before loads exit after s' t' := by
  have same : written s' t' = written s t := by simp [written, State.code, output, endOutput]
  have starts : Later targets s' s := Later.of_shapes (by rw [output]) shapes.symm
  have ends : Later targets t t' := Later.of_shapes (by rw [endOutput]) endShapes
  refine ⟨?_, ?_, keeps, ?_⟩
  · exact (starts.trans_subset executes.later (List.Subset.refl _)).trans_subset ends
      (List.Subset.refl _)
  · rw [same, State.code, State.code, output, endOutput]
    exact executes.code_eq
  · rw [same]
    intro program rest within stack
    rw [watching, store]
    exact executes.runs within stack

section

variable {store : Store} {isStatic : Bool} {scope : List (String × IntType)} {scopes : List Nat}

/-- The depth of operations does not matter. -/
theorem Computes.operation {depth : Nat}
    (computes : Computes (laying store isStatic scope scopes) ty value loads { s with depth } t)
    (outer : Nat) :
    Computes (laying store isStatic scope scopes) ty value loads s (t.leave outer) where
  toExecutes := computes.toExecutes.congr rfl rfl rfl rfl rfl rfl (computes.keeps.leave outer)
  alive := computes.alive
  stack_eq := computes.stack_eq

theorem Computes.deeper
    (computes : Computes (laying store isStatic scope scopes) ty value loads s t) (depth : Nat) :
    Computes (laying store isStatic scope scopes) ty value loads s { t with depth } where
  toExecutes := computes.toExecutes.congr rfl rfl rfl rfl rfl rfl (computes.keeps.deeper depth)
  alive := computes.alive
  stack_eq := computes.stack_eq

/-- A value that is computed in a scope of its own. -/
theorem Computes.inScope {code : Gen Unit}
    (computes : ∀ ⦃u⦄, code s.entered = .ok () u →
      Computes (laying store isStatic scope ((layout isStatic scope).length :: scopes)) ty value
        loads s.entered u)
    (run : inScope code s = .ok () t) :
    Computes (laying store isStatic scope scopes) ty value loads s t := by
  obtain ⟨u, start, rest, ran, scopesEq, rfl⟩ := inScope_eq_ok.mp run
  have computes := computes ran
  obtain ⟨rfl, rfl⟩ := List.cons.inj (computes.keeps.scopes_eq.symm.trans scopesEq)
  have keeps : Laid isStatic ([] ++ scope) ((layout isStatic scope).length :: scopes) u :=
    computes.keeps
  exact
    { toExecutes := computes.toExecutes.congr rfl rfl rfl rfl rfl rfl keeps.left
      alive := computes.alive
      stack_eq := computes.stack_eq }

end

/-! ## Operations on numbers -/

section

variable {source target left : IntType} {n a : Int} {type? : Option IntType} {number? : Option Int}

/-- An operand that pushes a number, if it can be generated. -/
structure Pushes (ctx : Context) (setting : Setting) (operand : Operand)
    (type? : Option IntType) (number? : Option Int) : Prop where
  probed : ∀ ⦃s t found⦄, s.frame.alive = true → setting.inv s →
    probe ctx operand s = .ok found t →
    ∃ ty, type? = some ty ∧ found = ty.type ∧ setting.inv t
  valued : ∀ ⦃s t found⦄, s.frame.alive = true → setting.inv s →
    Gen.value operand.code s = .ok found t →
    ∃ ty n, type? = some ty ∧ number? = some n ∧ ty.Contains n ∧
      Computes setting ty.type (ty.value n) [] s t

/-- The result of an operand that pushes a number. -/
def numberResult? (type? : Option IntType) (number? : Option Int) :
    Option (Value × List Instr) :=
  type?.bind fun ty => (number?.filter fun n => ty.Contains n).map fun n => (ty.value n, [])

theorem Pushes.yields {operand : Operand} (pushes : Pushes ctx setting operand type? number?) :
    Yields ctx setting operand (type?.map IntType.type) (numberResult? type? number?) where
  probed s t found alive holds run := by
    obtain ⟨ty, isType, rfl, keeps⟩ := pushes.probed alive holds run
    exact ⟨by simp [isType], keeps⟩
  valued s t found alive holds run := by
    obtain ⟨ty, n, isType, isNumber, contains, computes⟩ := pushes.valued alive holds run
    obtain ⟨-, rest, stackEq, -⟩ := value_eq_ok.mp run
    obtain ⟨rfl, -⟩ := List.cons.inj (computes.stack_eq.symm.trans stackEq)
    exact ⟨(ty.value n, []), by simp [isType], by simp [numberResult?, isType, isNumber, contains],
      ty.category_value n, computes⟩

/-- An assignment conversion wraps the number. -/
theorem Computes.coerced_number (stable : Stable setting.inv)
    (computes : Computes setting source.type (source.value n) loads s u)
    (contains : source.Contains n) (run : coerceTop ctx target.type u = .ok () t) :
    IntType.converts ctx.config.narrowReinterpretation source target = true ∧
      Computes setting target.type (target.value (target.wrap n)) loads s t := by
  obtain ⟨found, rest, stackEq, implicit, -⟩ := coerceTop_emits run
  obtain ⟨rfl, -⟩ := List.cons.inj (computes.stack_eq.symm.trans stackEq)
  have legal := IntType.legal_of_isImplicit implicit
  rw [IntType.isImplicit_conversion] at implicit
  exact ⟨implicit, computes.coerced stable (IntType.conversion_runs legal contains) run⟩

/-- A cast wraps the number. -/
theorem Computes.cast_number (stable : Stable setting.inv)
    (computes : Computes setting source.type (source.value n) loads s u)
    (contains : source.Contains n) (run : castTop ctx target.type u = .ok () t) :
    Computes setting target.type (target.value (target.wrap n)) loads s t := by
  obtain ⟨found, rest, stackEq, legal, emits⟩ := castTop_emits run
  obtain ⟨rfl, rfl⟩ := List.cons.inj (computes.stack_eq.symm.trans stackEq)
  have converts : Executes setting [] [source.value n] [] none [target.value (target.wrap n)] u t :=
    Executes.of_emits stable computes.keeps emits (IntType.conversion_runs legal contains)
  have whole := computes.toExecutes.trans converts (by simp)
  rw [List.append_nil] at whole
  exact ⟨whole, emits.alive_eq.trans computes.alive, emits.stack_eq⟩

/-- The right operand is probed and pushed between the conversions of the left
one and its own; then the instruction takes both. -/
theorem arith_computes {op : IntOp} {right : Operand} (stable : Stable setting.inv)
    (first : Computes setting left.type (left.value a) [] s u) (contains : left.Contains a)
    (pushes : Pushes ctx setting right type? number?)
    (run : arith ctx op.arith right u = .ok () t) :
    ∃ rightType b, type? = some rightType ∧ number? = some b ∧
      (op.resultType left rightType).Contains (op.apply (op.resultType left rightType) a b) ∧
      Computes setting (op.resultType left rightType).type
        ((op.resultType left rightType).value (op.apply (op.resultType left rightType) a b)) []
        s t := by
  obtain ⟨top, _, peeked, run⟩ := bind_eq_ok.mp run
  obtain ⟨⟨rest, stackEq⟩, rfl⟩ := peek_eq_ok.mp peeked
  obtain ⟨rfl, rfl⟩ := List.cons.inj (first.stack_eq.symm.trans stackEq)
  obtain ⟨found, v, probed, run⟩ := bind_eq_ok.mp run
  obtain ⟨rightType, isType, rfl, -⟩ := pushes.probed first.alive first.keeps probed
  obtain ⟨-, probes, frameEq⟩ := pushes.yields.probe_executes first.alive first.keeps probed
  have first : Computes setting left.type (left.value a) [] s v := by
    refine ⟨?_, frameEq ▸ first.alive, frameEq ▸ first.stack_eq⟩
    simpa using first.toExecutes.trans (probes.frame [left.value a]) (by simp)
  cases applicable : operandTypes? op.arith left.type rightType.type with
  | none =>
      simp only [applicable] at run
      exact (throw_eq_ok.mp run).elim
  | some pair =>
      obtain ⟨result, converted⟩ := pair
      simp only [applicable] at run
      obtain ⟨computesIn, rfl, rfl⟩ := IntOp.operandTypes?_type applicable
      obtain ⟨_, w, operands, run⟩ := bind_eq_ok.mp run
      obtain ⟨_, w₁, coercedLeft, operands⟩ := bind_eq_ok.mp operands
      obtain ⟨_, w₂, valued, coercedRight⟩ := bind_eq_ok.mp operands
      obtain ⟨-, first⟩ := first.coerced_number stable contains coercedLeft
      have contains : (op.resultType left rightType).Contains a := IntOp.contains_left contains
      obtain ⟨_, b, isType', isNumber, containsRight, second⟩ :=
        pushes.valued first.alive first.keeps valued
      obtain rfl := Option.some.inj (isType.symm.trans isType')
      obtain ⟨implicit, second⟩ := second.coerced_number stable containsRight coercedRight
      have containsRight := IntOp.contains_right implicit containsRight
      rw [show IntType.wrap _ _ = _ from contains] at first
      rw [show IntType.wrap _ _ = _ from containsRight] at second
      obtain ⟨inRange, calculation, isCalculation, applied⟩ :=
        IntOp.calculates computesIn contains containsRight
      refine ⟨_, b, isType, isNumber, inRange, ?_⟩
      obtain ⟨both, stackEq⟩ := first.pair second
      obtain ⟨_, w₃, popping, run⟩ := bind_eq_ok.mp run
      obtain ⟨_, w₄, emitted, pushing⟩ := bind_eq_ok.mp run
      obtain ⟨-, popped⟩ := popN_emits popping
      obtain ⟨plain, effect⟩ := Instr.effect?_arith applicable
      have writes := emit_emits plain emitted
      have emits := (popped.trans writes).trans (push_emits pushing).1
      rw [writes.stack_eq, popped.stack_eq, stackEq] at emits
      have calculates : Executes setting [] [_, _] [] none [_] w t :=
        Executes.of_emits stable both.keeps emits
          (Runs.of_calculation isCalculation (by simp [Instr.isLoad, effect]) applied)
      exact ⟨both.trans calculates (by simp), emits.alive_eq.trans second.alive, emits.stack_eq⟩

theorem negate_computes (stable : Stable setting.inv)
    (first : Computes setting left.type (left.value a) [] s u) (contains : left.Contains a)
    (run : negate ctx u = .ok () t) :
    Computes setting left.promoted.type (left.promoted.value (left.promoted.wrap (-a))) [] s t := by
  obtain ⟨top, _, peeked, run⟩ := bind_eq_ok.mp run
  obtain ⟨⟨rest, stackEq⟩, rfl⟩ := peek_eq_ok.mp peeked
  obtain ⟨rfl, rfl⟩ := List.cons.inj (first.stack_eq.symm.trans stackEq)
  cases promotion : left.type.unaryPromotion? with
  | none =>
      simp only [promotion] at run
      exact (throw_eq_ok.mp run).elim
  | some p =>
      simp only [promotion] at run
      obtain rfl := IntType.unaryPromotion?_type promotion
      obtain ⟨_, v, coerced, emitted⟩ := bind_eq_ok.mp run
      obtain ⟨-, first⟩ : _ ∧ Computes setting left.promoted.type _ _ s v :=
        first.coerced_number stable contains coerced
      rw [show IntType.wrap _ _ = _ from contains.promote] at first
      have promoted : left.promoted = .int ∨ left.promoted = .long := by
        cases left <;> simp [IntType.promoted]
      obtain ⟨calculation, isCalculation, applied⟩ := IntType.negates promoted contains.promote
      have plain : (Instr.op (Opcode.ineg + left.promoted.primitive.typecode)).isPlain = true ∧
          (Instr.op (Opcode.ineg + left.promoted.primitive.typecode)).isLoad = false := by
        cases left <;> exact ⟨rfl, rfl⟩
      have emits := emit_emits plain.1 emitted
      have calculates : Executes setting [] [_] [] none [_] v t :=
        Executes.of_emits stable first.keeps emits
          (Runs.of_calculation isCalculation plain.2 applied)
      exact ⟨first.toExecutes.trans calculates (by simp), emits.alive_eq.trans first.alive,
        emits.stack_eq.trans first.stack_eq⟩

end

/-! ## Choices -/

theorem newLabels_execute {first second : Label} (stable : Stable setting.inv)
    (holds : setting.inv s) (allocated : newLabel s = .ok first u)
    (allocatedNext : newLabel u = .ok second t) :
    Executes setting [] [] [] none [] s t ∧ t.frame = s.frame ∧
      ∀ label ∈ [first, second],
        s.output.nextLabel ≤ label.id ∧ label.id < t.output.nextLabel := by
  have one : Executes setting [] [] [] none [] s u :=
    Executes.of_newLabel stable holds allocated []
  have two : Executes setting [] [] [] none [] u t :=
    Executes.of_newLabel stable one.keeps allocatedNext []
  refine ⟨one.trans two (by simp), ?_⟩
  obtain ⟨rfl, rfl⟩ := newLabel_eq_ok.mp allocated
  obtain ⟨rfl, rfl⟩ := newLabel_eq_ok.mp allocatedNext
  simp

/-- Two ways to a value.  The stack after them is known from the types. -/
theorem choice_computes {cond : Branch} {whenTrue whenFalse : Gen Unit}
    {verdict? : Option Bool} {first? second? : Option Value} (stable : Stable setting.inv)
    (deciding : Deciding setting cond (verdict?.map (·, [])))
    (thenComputes : ∀ ⦃s t⦄, s.frame.alive = true → setting.inv s → whenTrue s = .ok () t →
      ∃ value, first? = some value ∧ Computes setting ty value [] s t)
    (elseComputes : ∀ ⦃s t⦄, s.frame.alive = true → setting.inv s → whenFalse s = .ok () t →
      ∃ value, second? = some value ∧ Computes setting ty value [] s t)
    (alive : s.frame.alive = true) (holds : setting.inv s)
    (run : (do
      let other ← newLabel
      let stop ← newLabel
      cond false other
      whenAlive do
        whenTrue
        jump ctx .goto stop
      place ctx other
      whenAlive whenFalse
      place ctx stop : Gen Unit) s = .ok () t)
    (aliveAfter : t.frame.alive = true) (stackEq : t.frame.stack = ty :: s.frame.stack) :
    ∃ verdict value, verdict? = some verdict ∧
      (if verdict then first? else second?) = some value ∧
      Computes setting ty value [] s t := by
  obtain ⟨other, s₁, allocated, run⟩ := bind_eq_ok.mp run
  obtain ⟨stop, s₂, allocatedStop, run⟩ := bind_eq_ok.mp run
  obtain ⟨_, s₃, tested, run⟩ := bind_eq_ok.mp run
  obtain ⟨_, s₄, thenRun, run⟩ := bind_eq_ok.mp run
  obtain ⟨_, s₅, placedOther, run⟩ := bind_eq_ok.mp run
  obtain ⟨_, s₆, elseRun, placedStop⟩ := bind_eq_ok.mp run
  obtain ⟨opening, frameEq, fresh⟩ := newLabels_execute stable holds allocated allocatedStop
  have otherOld : other ∈ s₂.old := (fresh other (by simp)).2
  have stopOld : stop ∈ s₂.old := (fresh stop (by simp)).2
  have shared {u v : State} : ∀ label ∈ [other, stop], label ∈ [other, stop] ∨
      (u.output.nextLabel ≤ label.id ∧ label.id < v.output.nextLabel) := fun _ => .inl
  have alive₂ : s₂.frame.alive = true := frameEq ▸ alive
  obtain ⟨_, isOutcome, decides⟩ := deciding alive₂ opening.keeps otherOld tested
  obtain ⟨verdict, isVerdict, rfl⟩ := Option.map_eq_some_iff.mp isOutcome
  have test := decides.toExecutes.mono (by simp : [other] ⊆ [other, stop])
  -- What is written of the first way, whether it is taken or not.
  have thenPart : (s₃.frame.alive = true ∧ ∃ value, first? = some value ∧
      Executes setting [other, stop] [] [] (some stop) [value] s₃ s₄) ∨
        s₃.frame.alive = false ∧ s₃ = s₄ := by
    refine (whenAlive_eq_ok.mp thenRun).imp_left fun ⟨alive₃, ran⟩ => ⟨alive₃, ?_⟩
    obtain ⟨_, u, ran, jumped⟩ := bind_eq_ok.mp ran
    obtain ⟨value, isValue, computes⟩ := thenComputes alive₃ test.keeps ran
    obtain ⟨jumps, -⟩ := goto_executes stable computes.keeps
      (computes.old (test.old stopOld)) jumped
    refine ⟨value, isValue, ?_⟩
    have whole := (computes.toExecutes.mono (List.nil_subset [other, stop])).trans
      (jumps.frame [value]) (by simp)
    simpa using whole
  have keeps₄ : setting.inv s₄ ∧ s₃.old ⊆ s₄.old := by
    rcases thenPart with ⟨-, _, -, executes⟩ | ⟨-, rfl⟩
    · exact ⟨executes.keeps, executes.old⟩
    · exact ⟨test.keeps, subset_rfl⟩
  have old₄ := test.old.trans keeps₄.2
  have placing (operands : List Value) :
      Executes setting [other, stop] operands [] none operands s₄ s₅ :=
    (Executes.of_place stable keeps₄.1 (old₄ otherOld) placedOther operands).mono (by simp)
  have elsePart : (s₅.frame.alive = true ∧ ∃ value, second? = some value ∧
      Computes setting ty value [] s₅ s₆) ∨ s₅.frame.alive = false ∧ s₅ = s₆ :=
    (whenAlive_eq_ok.mp elseRun).imp_left fun ⟨alive₅, ran⟩ =>
      ⟨alive₅, elseComputes alive₅ (placing []).keeps ran⟩
  have stopOld₆ : stop ∈ s₆.old := by
    have old₅ := (placing []).old (old₄ stopOld)
    rcases elsePart with ⟨-, _, -, computes⟩ | ⟨-, rfl⟩
    · exact computes.old old₅
    · exact old₅
  cases verdict with
  | true =>
      simp only [Bool.true_eq_false, if_false] at test
      rcases thenPart with ⟨-, value, isValue, first⟩ | ⟨dead, -⟩
      · refine ⟨true, value, isVerdict, isValue, ?_, aliveAfter, stackEq⟩
        have left := (test.trans first shared).leave (placing []) shared
        have passed : Executes setting [other, stop] [] [] (some stop) [value] s₂ s₆ := by
          rcases elsePart with ⟨-, _, -, computes⟩ | ⟨-, rfl⟩
          · exact left.leave computes.toExecutes (by simp)
          · exact left
        exact opening.trans (passed.rejoin stable stopOld₆ placedStop (.inl (by simp)))
          fun label mem => .inr (fresh label mem)
      · exact absurd (decides.dead dead) (by simp)
  | false =>
      simp only [if_true] at test
      have passed : Executes setting [other, stop] [] [] (some other) [] s₂ s₄ := by
        rcases thenPart with ⟨-, _, -, executes⟩ | ⟨-, rfl⟩
        · exact test.leave executes shared
        · exact test
      have arrived := passed.rejoin stable (old₄ otherOld) placedOther (.inl (by simp))
      rcases elsePart with ⟨-, value, isValue, second⟩ | ⟨dead, -⟩
      · refine ⟨false, value, isVerdict, isValue, ?_, aliveAfter, stackEq⟩
        have ended : Executes setting [stop] [value] [] none [value] s₆ t :=
          Executes.of_place stable second.keeps stopOld₆ placedStop [value]
        have whole := (arrived.trans second.toExecutes (by simp)).trans ended (by simp)
        exact opening.trans whole fun label mem => .inr (fresh label mem)
      · -- The second way is reached, since the condition goes to it.
        have marked : (s₄.shape? other).isSome = true := by
          rcases thenPart with ⟨-, _, -, executes⟩ | ⟨-, rfl⟩
          · exact executes.later.isSome_shape (decides.marked rfl)
          · exact decides.marked rfl
        simp [(place_dead placedOther dead).2] at marked

section

variable {store : Store} {isStatic : Bool} {scope : List (String × IntType)} {scopes : List Nat}

/-- An arm pushes its number, wrapped into the type that the arms agree on. -/
theorem arm_computes {operand : Operand} {target : IntType} {type? : Option IntType}
    {number? : Option Int}
    (pushes : Pushes ctx (laying store isStatic scope ((layout isStatic scope).length :: scopes))
      operand type? number?)
    (alive : s.frame.alive = true) (laid : Laid isStatic scope scopes s)
    (run : arm ctx target.type operand.code s = .ok () t) :
    ∃ n, number? = some n ∧
      Computes (laying store isStatic scope scopes) target.type (target.value (target.wrap n)) []
        s t := by
  obtain ⟨u, start, rest, ran, scopesEq, rfl⟩ := inScope_eq_ok.mp run
  obtain ⟨_, v, valued, coerced⟩ := bind_eq_ok.mp ran
  have aliveInside : s.entered.frame.alive = true := alive
  obtain ⟨ty, n, -, isNumber, contains, computes⟩ :=
    pushes.valued aliveInside laid.entered valued
  refine ⟨n, isNumber, Computes.inScope (fun w again => ?_) run⟩
  obtain rfl : u = w := by simpa using ran.symm.trans again
  exact (computes.coerced_number Laid.stable contains coerced).2

theorem conditional_computes {cond : Branch} {thenArm elseArm : Operand}
    {thenFlow elseFlow : Option JType} {thenType? elseType? : Option IntType}
    {verdict? : Option Bool} {then? else? : Option Int} {locals : LocalTable}
    {types : Position → Option JType}
    (deciding : Deciding (laying store isStatic scope scopes) cond (verdict?.map (·, [])))
    (thenPushes : ∀ scopes, Pushes ctx (laying store isStatic scope scopes) thenArm thenType? then?)
    (elsePushes : ∀ scopes, Pushes ctx (laying store isStatic scope scopes) elseArm elseType? else?)
    (branching : Branching ctx.result locals types cond)
    (typedThen : OfOperand ctx.result locals types thenArm thenFlow)
    (typedElse : OfOperand ctx.result locals types elseArm elseFlow)
    (ready : Ready locals types s) (laid : Laid isStatic scope scopes s)
    (run : conditional ctx cond thenArm elseArm s = .ok () t) :
    ∃ thenType elseType ty verdict n, thenType? = some thenType ∧ elseType? = some elseType ∧
      IntType.common? ctx.config.narrowReinterpretation thenType elseType = some ty ∧
      verdict? = some verdict ∧ (if verdict then then? else else?) = some n ∧
      Computes (laying store isStatic scope scopes) ty.type (ty.value (ty.wrap n)) [] s t := by
  obtain ⟨_, _, _, isThen, isElse, common, -, goes⟩ :=
    conditional_goes branching typedThen typedElse ready run
  obtain ⟨foundThen, s₁, probedThen, run⟩ := bind_eq_ok.mp run
  obtain ⟨foundElse, s₂, probedElse, run⟩ := bind_eq_ok.mp run
  -- The types that were probed are those by which the stack is known.
  obtain ⟨isThen', goesThen⟩ := typedThen.probe ready probedThen
  obtain ⟨isElse', -⟩ := typedElse.probe (goesThen.ready ready) probedElse
  obtain rfl := Option.some.inj (isThen.symm.trans isThen')
  obtain rfl := Option.some.inj (isElse.symm.trans isElse')
  simp only [common] at run
  obtain ⟨thenType, isThenType, rfl, -⟩ :=
    (thenPushes scopes).probed ready.alive laid probedThen
  obtain ⟨-, first, frameEq⟩ :=
    (thenPushes scopes).yields.probe_executes ready.alive laid probedThen
  obtain ⟨elseType, isElseType, rfl, -⟩ :=
    (elsePushes scopes).probed (frameEq ▸ ready.alive) first.keeps probedElse
  obtain ⟨-, second, frameEq'⟩ :=
    (elsePushes scopes).yields.probe_executes (frameEq ▸ ready.alive) first.keeps probedElse
  obtain ⟨ty, isCommon, rfl⟩ := IntType.common_type common
  have probes := first.trans second (by simp)
  have sameFrame : s₂.frame = s.frame := frameEq'.trans frameEq
  have armComputes {arm : Operand} {type? : Option IntType} {number? : Option Int}
      (pushes : ∀ scopes, Pushes ctx (laying store isStatic scope scopes) arm type? number?)
      ⦃u v⦄ (alive : u.frame.alive = true) (laid : Laid isStatic scope scopes u)
      (ran : Gen.arm ctx ty.type arm.code u = .ok () v) :
      ∃ value, number?.map (fun n => ty.value (ty.wrap n)) = some value ∧
        Computes (laying store isStatic scope scopes) ty.type value [] u v := by
    obtain ⟨n, isNumber, computes⟩ := arm_computes (pushes _) alive laid ran
    exact ⟨_, by rw [isNumber]; rfl, computes⟩
  obtain ⟨verdict, value, isVerdict, isValue, computes⟩ := choice_computes Laid.stable deciding
    (armComputes thenPushes) (armComputes elsePushes) (sameFrame ▸ ready.alive) probes.keeps run
    goes.alive (sameFrame ▸ goes.stack_eq)
  obtain ⟨n, isNumber, rfl⟩ : ∃ n, (if verdict then then? else else?) = some n ∧
      ty.value (ty.wrap n) = value := by
    cases verdict <;> exact Option.map_eq_some_iff.mp isValue
  exact ⟨thenType, elseType, ty, verdict, n, isThenType, isElseType, isCommon, isVerdict, isNumber,
    probes.trans computes.toExecutes (by simp), goes.alive, goes.stack_eq⟩

theorem boolean_computes {value : Bool} (laid : Laid isStatic scope scopes s)
    (alive : s.frame.alive = true) (run : boolean ctx value s = .ok () t) :
    Computes (laying store isStatic scope scopes) .boolean (IntType.boolean.value value.toInt) []
      s t := by
  have emits : Emits s t _ _ := source_emits (by cases value <;> rfl) run
  have runs : Runs (laying store isStatic scope scopes)
      [.op (if value then .iconst1 else .iconst0)] [] [] none
      [IntType.boolean.value value.toInt] :=
    Runs.of_go fun stack => by cases value <;> rfl
  exact ⟨Executes.of_emits Laid.stable laid emits runs, emits.alive_eq.trans alive, emits.stack_eq⟩

theorem condValue_computes {cond : Branch} {verdict? : Option Bool} {locals : LocalTable}
    {types : Position → Option JType}
    (deciding : Deciding (laying store isStatic scope scopes) cond (verdict?.map (·, [])))
    (branching : Branching ctx.result locals types cond) (ready : Ready locals types s)
    (laid : Laid isStatic scope scopes s) (run : condValue ctx cond s = .ok () t) :
    ∃ verdict, verdict? = some verdict ∧ Computes (laying store isStatic scope scopes) .boolean
      (IntType.boolean.value verdict.toInt) [] s t := by
  have goes := condValue_goes branching ready run
  obtain ⟨verdict, value, isVerdict, isValue, computes⟩ := choice_computes Laid.stable deciding
    (fun u v alive laid ran => ⟨_, rfl, boolean_computes laid alive ran⟩)
    (fun u v alive laid ran => ⟨_, rfl, boolean_computes laid alive ran⟩)
    ready.alive laid run goes.alive goes.stack_eq
  refine ⟨verdict, isVerdict, ?_⟩
  cases verdict <;> cases isValue <;> exact computes

end

/-! ## Conditions -/

theorem Deciding.imp {branch : Branch} {outcome? outcome?' : Option (Bool × List Instr)}
    (deciding : Deciding setting branch outcome?)
    (implies : ∀ outcome, outcome? = some outcome → outcome?' = some outcome) :
    Deciding setting branch outcome?' := by
  intro s t sense target alive holds known run
  obtain ⟨outcome, isOutcome, decides⟩ := deciding alive holds known run
  exact ⟨outcome, implies outcome isOutcome, decides⟩

theorem numberResult?_eq_some {type? : Option IntType} {number? : Option Int}
    {result : Value × List Instr} (isResult : numberResult? type? number? = some result) :
    ∃ ty n, type? = some ty ∧ number? = some n ∧ ty.Contains n ∧ result = (ty.value n, []) := by
  obtain ⟨ty, isType, isResult⟩ := Option.bind_eq_some_iff.mp isResult
  obtain ⟨n, isNumber, rfl⟩ := Option.map_eq_some_iff.mp isResult
  obtain ⟨isNumber, contains⟩ := Option.filter_eq_some_iff.mp isNumber
  exact ⟨ty, n, isType, isNumber, by simpa using contains, rfl⟩

theorem truth?_value {ty : IntType} {n : Int} {holds : Bool} (contains : ty.Contains n)
    (isTruth : (ty.value n).truth? = some holds) : holds = (n != 0) := by
  have number := IntType.integer?_value contains
  cases word : ty.value n with
  | int a =>
      rw [word] at isTruth number
      obtain rfl := Option.some.inj number
      obtain rfl := Option.some.inj isTruth
      rw [Bool.eq_iff_iff, bne_iff_ne, bne_iff_ne, ne_eq, ne_eq, ← Int32.toInt_zero,
        Int32.toInt_inj]
  | long | float | double | reference => simp [word, Value.truth?] at isTruth

theorem truthBranch_numbers {code : Gen Unit} {type? : Option IntType} {number? : Option Int}
    (stable : Stable setting.inv) (wanted : Bool)
    (pushes : Pushes ctx setting ⟨pos, code⟩ type? number?) :
    Deciding setting (truthBranch ctx wanted code)
      (number?.map fun n => ((n != 0) == wanted, [])) := by
  refine (truthBranch_deciding stable wanted pushes.yields ?_).imp ?_
  · intro ty isType
    obtain ⟨ty, -, rfl⟩ := Option.map_eq_some_iff.mp isType
    rfl
  · intro outcome isOutcome
    obtain ⟨result, isResult, isOutcome⟩ := Option.bind_eq_some_iff.mp isOutcome
    obtain ⟨ty, n, -, isNumber, contains, rfl⟩ := numberResult?_eq_some isResult
    obtain ⟨holds, isTruth, rfl⟩ := Option.map_eq_some_iff.mp isOutcome
    simp [isNumber, truth?_value contains isTruth]

section

variable {op : RelOp} {nan sense : Bool} {left right : Operand} {target : Label}
variable {leftType? rightType? : Option IntType} {left? right? : Option Int}

theorem relates_of_not_isBooleanLike {left right : IntType}
    (numbers : (left.type.isBooleanLike || right.type.isBooleanLike) = false) :
    op.relates left.type right.type = true := by
  cases left <;> cases right <;> first | rfl | contradiction

/-- Numbers that can be compared are related: a truth value is only compared to
another one. -/
theorem compareBranch_relates (leftPushes : Pushes ctx setting left leftType? left?)
    (rightPushes : Pushes ctx setting right rightType? right?) (stable : Stable setting.inv)
    (alive : s.frame.alive = true) (holds : setting.inv s)
    (run : compareBranch ctx op left right nan sense target s = .ok () t) :
    ∃ leftType rightType, leftType? = some leftType ∧ rightType? = some rightType ∧
      op.relates leftType.type rightType.type = true := by
  unfold compareBranch at run
  obtain ⟨_, q, leftProbed, run⟩ := bind_eq_ok.mp run
  obtain ⟨leftType, isLeft, rfl, -⟩ := leftPushes.probed alive holds leftProbed
  obtain ⟨-, first, frameEq⟩ := leftPushes.yields.probe_executes alive holds leftProbed
  obtain ⟨_, r, rightProbed, run⟩ := bind_eq_ok.mp run
  have aliveQ : q.frame.alive = true := frameEq ▸ alive
  obtain ⟨rightType, isRight, rfl, -⟩ := rightPushes.probed aliveQ first.keeps rightProbed
  obtain ⟨-, second, frameEq'⟩ := rightPushes.yields.probe_executes aliveQ first.keeps rightProbed
  have aliveR : r.frame.alive = true := frameEq' ▸ aliveQ
  refine ⟨leftType, rightType, isLeft, isRight, ?_⟩
  obtain ⟨-, run⟩ := check_eq_ok.mp run
  obtain ⟨-, run⟩ := check_eq_ok.mp run
  rw [if_neg (by simp [JType.isReference])] at run
  by_cases booleanLike : (leftType.type.isBooleanLike || rightType.type.isBooleanLike) = true
  · rw [if_pos booleanLike] at run
    obtain ⟨equality, run⟩ := check_eq_ok.mp run
    obtain ⟨_, u, operands, -⟩ := bind_eq_ok.mp run
    obtain ⟨_, v, leftValued, operands⟩ := bind_eq_ok.mp operands
    obtain ⟨_, w, leftCoerced, operands⟩ := bind_eq_ok.mp operands
    obtain ⟨_, x, rightValued, rightCoerced⟩ := bind_eq_ok.mp operands
    obtain ⟨_, m, isLeft', -, contains, leftComputes⟩ :=
      leftPushes.valued aliveR second.keeps leftValued
    obtain rfl := Option.some.inj (isLeft.symm.trans isLeft')
    obtain ⟨converts, leftConverted⟩ : _ ∧ Computes setting IntType.boolean.type _ [] r w :=
      leftComputes.coerced_number stable contains leftCoerced
    obtain rfl : leftType = .boolean := by cases leftType <;> first | rfl | contradiction
    obtain ⟨_, n, isRight', -, contains, rightComputes⟩ :=
      rightPushes.valued leftConverted.alive leftConverted.keeps rightValued
    obtain rfl := Option.some.inj (isRight.symm.trans isRight')
    obtain ⟨converts, -⟩ : _ ∧ Computes setting IntType.boolean.type _ [] w u :=
      rightComputes.coerced_number stable contains rightCoerced
    obtain rfl : rightType = .boolean := by cases rightType <;> first | rfl | contradiction
    simpa [RelOp.relates, IntType.primitive, Primitive.isIntegral] using equality
  · exact relates_of_not_isBooleanLike (by simpa using booleanLike)

theorem compareBranch_numbers (stable : Stable setting.inv)
    (leftPushes : Pushes ctx setting left leftType? left?)
    (rightPushes : Pushes ctx setting right rightType? right?) :
    Deciding setting (compareBranch ctx op left right nan)
      (left?.bind fun m => right?.map fun n => (op.holds (compare m n), [])) := by
  intro s t sense target alive holds known run
  obtain ⟨leftType, rightType, rfl, rfl, related⟩ :=
    compareBranch_relates leftPushes rightPushes stable alive holds run
  obtain ⟨outcome, isOutcome, decides⟩ := compareBranch_decides stable leftPushes.yields
    rightPushes.yields related (by cases leftType <;> simp [IntType.primitive]) alive holds known
    run
  refine ⟨outcome, ?_, decides⟩
  obtain ⟨_, isLeft, isOutcome⟩ := Option.bind_eq_some_iff.mp isOutcome
  obtain ⟨_, isRight, isOutcome⟩ := Option.bind_eq_some_iff.mp isOutcome
  obtain ⟨_, m, ⟨⟩, isM, containsLeft, rfl⟩ := numberResult?_eq_some isLeft
  obtain ⟨_, n, ⟨⟩, isN, containsRight, rfl⟩ := numberResult?_eq_some isRight
  have compared : op.compare? nan _ _ = some _ := RelOp.compare?_of_integers
    (IntType.integer?_value containsLeft) (IntType.integer?_value containsRight)
  simpa [isM, isN, compared] using isOutcome

end

end Gen

/-! ## Expressions -/

open Gen

/-- The receiver is hidden by a variable or not among the names. -/
def Spares (isStatic : Bool) (scope : List (String × IntType)) (names : List String) : Prop :=
  isStatic = true ∨ hidesReceiver scope = true ∨ receiverName ∉ names

theorem Spares.mono {isStatic : Bool} {scope : List (String × IntType)} {names names' : List String}
    (spares : Spares isStatic scope names) (fewer : names' ⊆ names) :
    Spares isStatic scope names' :=
  spares.imp_right fun either => either.imp_right fun unused mem => unused (fewer mem)

/-- Conditions that are settled one after the other. -/
theorem settle?_evaluated {narrow : Bool} {env : IntEnv} (sense : Bool) (parts : List IntCond) :
    settle? sense (parts.map fun part => (part.eval narrow env).map (·, [])) =
      (evalUntil narrow env sense parts).map (·, []) := by
  induction parts with
  | nil => rfl
  | cons part rest ih =>
      rw [List.map_cons, settle?, ih, evalUntil]
      cases part.eval narrow env with
      | none => rfl
      | some holds =>
          by_cases same : holds = sense
          · simp [same]
          · cases evalUntil narrow env sense rest <;> simp [same]

section

variable {ctx : Context} {env : IntEnv} {store : Store} {scopes : List Nat} {s t : State}
variable {pos : Position}

/-- The code pushes the value of the expression. -/
def IntExpr.Computed (e : IntExpr) (ctx : Context) (env : IntEnv) (setting : Setting)
    (s t : State) : Prop :=
  ∃ ty n, e.type? ctx.config.narrowReinterpretation env = some ty ∧
    e.eval ctx.config.narrowReinterpretation env = some n ∧ ty.Contains n ∧
    Computes setting ty.type (ty.value n) [] s t

theorem load_computed {name : String} (stored : Stored ctx.isStatic store env)
    (spares : Spares ctx.isStatic (IntEnv.scope env) [name])
    (laid : Laid ctx.isStatic (IntEnv.scope env) scopes s) (alive : s.frame.alive = true)
    (run : load ctx (.named name) s = .ok () t) :
    (IntExpr.load name).Computed ctx env (laying store ctx.isStatic (IntEnv.scope env) scopes)
      s t := by
  obtain ⟨slot, ty, isSlot, typed, notVoid, emits⟩ := load_emits run
  rw [laid.locals_eq] at isSlot typed
  obtain ⟨index, found, rfl⟩ := Option.map_eq_some_iff.mp isSlot
  obtain ⟨v, isVariable, small, isType, holds, contains⟩ := stored.lookup found
    (spares.imp_right fun either => either.imp_right fun unused => by simpa [eq_comm] using unused)
  rw [toNat_toUInt16 small, isType] at typed
  obtain rfl := Option.some.inj typed
  have runs : Runs (laying store ctx.isStatic (IntEnv.scope env) scopes) _ [] _ none _ :=
    Runs.of_loadOf notVoid holds (v.type.category_value v.value)
  refine ⟨v.type, v.value, ?_, ?_, contains, Executes.of_emits Laid.stable laid emits runs,
    emits.alive_eq.trans alive, emits.stack_eq⟩
  · simp [IntExpr.type?, isVariable]
  · simp [IntExpr.eval, isVariable]

theorem constant_computes {literal : Literal} {ty : IntType} {n : Int}
    {scope : List (String × IntType)} (laid : Laid ctx.isStatic scope scopes s)
    (alive : s.frame.alive = true) (run : constant ctx literal s = .ok () t)
    (isType : literal.type = ty.type) (isValue : Value.ofLiteral literal = ty.value n) :
    Computes (laying store ctx.isStatic scope scopes) ty.type (ty.value n) [] s t := by
  have emits := constant_emits run
  have runs : Runs (laying store ctx.isStatic scope scopes) _ [] _ none _ :=
    Runs.of_constant literal
  rw [isType] at emits
  rw [isValue] at runs
  exact ⟨Executes.of_emits Laid.stable laid emits runs, emits.alive_eq.trans alive, emits.stack_eq⟩

/-- An expression whose code is known pushes its value as an operand; probed
afresh, it has the same type. -/
theorem IntExpr.pushes {e : IntExpr} (fresh : ctx.probing = .fresh)
    (computed : ∀ ⦃s t⦄, s.frame.alive = true → Laid ctx.isStatic (IntEnv.scope env) scopes s →
      codeFrom ctx pos 0 e.ops s = .ok () t →
      e.Computed ctx env (laying store ctx.isStatic (IntEnv.scope env) scopes) s t) :
    Pushes ctx (laying store ctx.isStatic (IntEnv.scope env) scopes)
      ⟨pos, codeFrom ctx pos 0 e.ops⟩ (e.type? ctx.config.narrowReinterpretation env)
      (e.eval ctx.config.narrowReinterpretation env) where
  probed s t found alive laid run := by
    simp only [probe, fresh, probeFresh] at run
    split at run
    · rename_i ty dry valued
      cases run
      obtain ⟨ran, rest, stackEq, -⟩ := value_eq_ok.mp valued
      have aliveDry : s.dryRun.frame.alive = true := alive
      obtain ⟨ty, n, isType, -, -, computes⟩ := computed aliveDry laid.dryRun ran
      obtain ⟨rfl, -⟩ := List.cons.inj (computes.stack_eq.symm.trans stackEq)
      exact ⟨ty, isType, rfl, laid.of_eq rfl rfl rfl laid.shapesBelow⟩
    · contradiction
  valued s t found alive laid run := computed alive laid (value_eq_ok.mp run).1

end

/-- The generator probes operands afresh, and the slots hold the values of the
variables. -/
structure Represents (ctx : Context) (store : Store) (env : IntEnv) : Prop where
  fresh : ctx.probing = .fresh
  stored : Stored ctx.isStatic store env

section

variable {ctx : Context} {env : IntEnv} {store : Store}

mutual

/-- The code of an expression pushes its value. -/
theorem IntExpr.ops_computed (represents : Represents ctx store env) (pos : Position)
    (index : Nat) (scopes : List Nat) :
    (e : IntExpr) → Spares ctx.isStatic (IntEnv.scope env) e.loads →
      ∀ ⦃s t⦄, s.frame.alive = true → Laid ctx.isStatic (IntEnv.scope env) scopes s →
        codeFrom ctx pos index e.ops s = .ok () t →
        e.Computed ctx env (laying store ctx.isStatic (IntEnv.scope env) scopes) s t
  | .load name, spares => by
      intro s t alive laid run
      obtain ⟨-, u, ran, rfl⟩ := codeFrom_singleton_eq_ok.mp run
      obtain ⟨ty, n, isType, isValue, contains, computes⟩ :=
        load_computed represents.stored spares (laid.deeper (s.depth + 1)) alive ran
      exact ⟨ty, n, isType, isValue, contains, computes.operation _⟩
  | .int value, _ => by
      intro s t alive laid run
      obtain ⟨-, u, ran, rfl⟩ := codeFrom_singleton_eq_ok.mp run
      have ran : constant ctx (.int value) _ = .ok () u := ran
      have computes : Computes (laying store ctx.isStatic (IntEnv.scope env) scopes)
          IntType.int.type (IntType.int.value value.toInt) [] _ u :=
        constant_computes (laid.deeper (s.depth + 1)) alive ran rfl
          (IntType.value_toInt_int value).symm
      exact ⟨.int, value.toInt, rfl, rfl, IntType.contains_toInt_int value, computes.operation _⟩
  | .long value, _ => by
      intro s t alive laid run
      obtain ⟨-, u, ran, rfl⟩ := codeFrom_singleton_eq_ok.mp run
      have ran : constant ctx (.long value) _ = .ok () u := ran
      have computes : Computes (laying store ctx.isStatic (IntEnv.scope env) scopes)
          IntType.long.type (IntType.long.value value.toInt) [] _ u :=
        constant_computes (laid.deeper (s.depth + 1)) alive ran rfl
          (IntType.value_toInt_long value).symm
      exact ⟨.long, value.toInt, rfl, rfl, IntType.contains_toInt_long value, computes.operation _⟩
  | .boolean value, _ => by
      intro s t alive laid run
      obtain ⟨-, u, ran, rfl⟩ := codeFrom_singleton_eq_ok.mp run
      have ran : boolean ctx value _ = .ok () u := ran
      have computes : Computes (laying store ctx.isStatic (IntEnv.scope env) scopes)
          .boolean (IntType.boolean.value value.toInt) [] _ u :=
        boolean_computes (laid.deeper (s.depth + 1)) alive ran
      exact ⟨.boolean, value.toInt, rfl, rfl, by cases value <;> rfl, computes.operation _⟩
  | .arith op left right, spares => by
      intro s t alive laid run
      obtain ⟨u, first, run⟩ := codeFrom_append_eq_ok.mp run
      obtain ⟨-, v, ran, rfl⟩ := codeFrom_singleton_eq_ok.mp run
      obtain ⟨leftType, a, isLeft, isA, contains, computes⟩ :=
        left.ops_computed represents pos index scopes (spares.mono (by simp [IntExpr.loads])) alive
          laid first
      have pushes := IntExpr.pushes represents.fresh (right.ops_computed represents
        (0 :: (index + left.ops.length) :: pos) 0 scopes (spares.mono (by simp [IntExpr.loads])))
      obtain ⟨rightType, b, isRight, isB, inRange, computes⟩ :=
        arith_computes Laid.stable (computes.deeper _) contains pushes ran
      exact ⟨_, _, by simp [IntExpr.type?, isLeft, isRight],
        by simp [IntExpr.eval, isLeft, isRight, isA, isB], inRange, computes.operation _⟩
  | .negate operand, spares => by
      intro s t alive laid run
      obtain ⟨u, first, run⟩ := codeFrom_append_eq_ok.mp run
      obtain ⟨-, v, ran, rfl⟩ := codeFrom_singleton_eq_ok.mp run
      obtain ⟨ty, n, isType, isValue, contains, computes⟩ :=
        operand.ops_computed represents pos index scopes spares alive laid first
      have computes := negate_computes Laid.stable (computes.deeper _) contains ran
      exact ⟨_, _, by simp [IntExpr.type?, isType], by simp [IntExpr.eval, isType, isValue],
        ty.promoted.contains_wrap _, computes.operation _⟩
  | .cast target operand, spares => by
      intro s t alive laid run
      obtain ⟨u, first, run⟩ := codeFrom_append_eq_ok.mp run
      obtain ⟨-, v, ran, rfl⟩ := codeFrom_singleton_eq_ok.mp run
      obtain ⟨ty, n, isType, isValue, contains, computes⟩ :=
        operand.ops_computed represents pos index scopes spares alive laid first
      have computes := (computes.deeper _).cast_number Laid.stable contains ran
      exact ⟨target, _, rfl, by simp [IntExpr.eval, isValue], target.contains_wrap n,
        computes.operation _⟩
  | .conditional cond thenArm elseArm, spares => by
      intro s t alive laid run
      obtain ⟨-, u, ran, rfl⟩ := codeFrom_singleton_eq_ok.mp run
      have deciding := cond.branch_deciding represents (0 :: index :: pos) scopes
        (spares.mono (by simp [IntExpr.loads]))
      have thenPushes (scopes : List Nat) := IntExpr.pushes represents.fresh (thenArm.ops_computed
        represents (1 :: index :: pos) 0 scopes (spares.mono (by simp [IntExpr.loads])))
      have elsePushes (scopes : List Nat) := IntExpr.pushes represents.fresh (elseArm.ops_computed
        represents (2 :: index :: pos) 0 scopes (spares.mono (by simp [IntExpr.loads])))
      have inside := laid.deeper (s.depth + 1)
      obtain ⟨types, ready, branching, typedThen, typedElse⟩ :=
        inside.conditional_flow alive (index :: pos) cond thenArm elseArm
      obtain ⟨thenType, elseType, ty, verdict, n, isThen, isElse, common, isVerdict, isNumber,
          computes⟩ := conditional_computes deciding thenPushes elsePushes branching typedThen
        typedElse ready inside ran
      refine ⟨ty, ty.wrap n, ?_, ?_, ty.contains_wrap n, computes.operation _⟩
      · simp [IntExpr.type?, isThen, isElse, common]
      · cases verdict <;> simp at isNumber <;>
          simp [IntExpr.eval, isThen, isElse, common, isVerdict, isNumber]
  | .condValue cond, spares => by
      intro s t alive laid run
      obtain ⟨-, u, ran, rfl⟩ := codeFrom_singleton_eq_ok.mp run
      have deciding := cond.branch_deciding represents (0 :: index :: pos) scopes spares
      have inside := laid.deeper (s.depth + 1)
      obtain ⟨types, ready, branching⟩ := inside.condition_flow alive (0 :: index :: pos) cond
      obtain ⟨verdict, isVerdict, computes⟩ :=
        condValue_computes deciding branching ready inside ran
      exact ⟨.boolean, verdict.toInt, rfl, by simp [IntExpr.eval, isVerdict],
        by cases verdict <;> rfl, computes.operation _⟩

/-- The code of a condition goes to its target if the condition has the asked
sense. -/
theorem IntCond.branch_deciding (represents : Represents ctx store env) (pos : Position)
    (scopes : List Nat) :
    (c : IntCond) → Spares ctx.isStatic (IntEnv.scope env) c.loads →
      Deciding (laying store ctx.isStatic (IntEnv.scope env) scopes) (c.cond.branch ctx pos)
        ((c.eval ctx.config.narrowReinterpretation env).map (·, []))
  | .const value, _ => constBranch_deciding Laid.stable value
  | .truth value, spares => by
      refine (truthBranch_numbers Laid.stable true (IntExpr.pushes represents.fresh
        (value.ops_computed represents (0 :: pos) 0 scopes spares))).imp fun outcome isOutcome => ?_
      obtain ⟨n, isValue, rfl⟩ := Option.map_eq_some_iff.mp isOutcome
      simp [IntCond.eval, isValue]
  | .falsity value, spares => by
      refine (truthBranch_numbers Laid.stable false (IntExpr.pushes represents.fresh
        (value.ops_computed represents (0 :: pos) 0 scopes spares))).imp fun outcome isOutcome => ?_
      obtain ⟨n, isValue, rfl⟩ := Option.map_eq_some_iff.mp isOutcome
      simp [IntCond.eval, isValue, bne]
  | .compare op left right nan, spares => by
      refine (compareBranch_numbers Laid.stable
        (IntExpr.pushes represents.fresh (left.ops_computed represents (0 :: pos) 0 scopes
          (spares.mono (by simp [IntCond.loads]))))
        (IntExpr.pushes represents.fresh (right.ops_computed represents (1 :: pos) 0 scopes
          (spares.mono (by simp [IntCond.loads]))))).imp fun outcome isOutcome => ?_
      obtain ⟨m, isLeft, isOutcome⟩ := Option.bind_eq_some_iff.mp isOutcome
      obtain ⟨n, isRight, rfl⟩ := Option.map_eq_some_iff.mp isOutcome
      simp [IntCond.eval, isLeft, isRight]
  | .conj parts, spares => by
      have deciding : Deciding _ (conjBranch ctx _) _ := conjBranch_deciding Laid.stable
        (condsOf_deciding represents pos 0 scopes parts spares)
      rwa [settle?_evaluated] at deciding
  | .disj parts, spares => by
      have deciding : Deciding _ (disjBranch ctx _) _ := disjBranch_deciding Laid.stable
        (condsOf_deciding represents pos 0 scopes parts spares)
      rwa [settle?_evaluated] at deciding

theorem condsOf_deciding (represents : Represents ctx store env) (pos : Position)
    (index : Nat) (scopes : List Nat) :
    (parts : List IntCond) → Spares ctx.isStatic (IntEnv.scope env) (loadsInParts parts) →
      List.Forall₂ (Deciding (laying store ctx.isStatic (IntEnv.scope env) scopes))
        (branchesFrom ctx pos index (condsOf parts))
        (parts.map fun part => (part.eval ctx.config.narrowReinterpretation env).map (·, []))
  | [], _ => .nil
  | part :: rest, spares =>
      .cons
        (part.branch_deciding represents (index :: pos) scopes
          (spares.mono (by simp [loadsInParts])))
        (condsOf_deciding represents pos (index + 1) scopes rest
          (spares.mono (by simp [loadsInParts])))

end

end

end JvmAssembler
