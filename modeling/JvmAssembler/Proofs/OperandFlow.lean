import Mathlib
import JvmAssembler.Proofs.BranchFlow

/-!
# Value chains keep the stack in step

The statements follow the recursion of the generator.  Where every operand, at
any depth, is a value chain, operands and conditions do to the stack what their
types say.  The types of operands are given by position; a fresh state can be
given such types, because no two operands share a position.
-/

namespace JvmAssembler

open Gen

/-! ## Types of operands by position -/

/-- The operands below a position are value chains, and the types given for
their positions are theirs. -/
structure Known (ctx : Context) (locals : LocalTable) (types : Position → Option JType)
    (pos : Position) (operands : List Fragment) (operandAt? : List Nat → Option Fragment) :
    Prop where
  chains : ∀ operand ∈ operands, operand.isValueChain = true
  agrees : ∀ path operand, operandAt? path = some operand →
    types (path.reverse ++ pos) = operand.type? ctx locals

/-- A value chain at a position, with its operands. -/
structure KnownOperand (ctx : Context) (locals : LocalTable)
    (types : Position → Option JType) (pos : Position) (operand : Fragment) : Prop where
  chain : operand.isValueChain = true
  type_eq : types pos = operand.type? ctx locals
  inner : Known ctx locals types pos (operandsIn operand) (operandIn? 0 operand)

/-- The operations of value chains. -/
def Op.isValueStep (op : Op) : Bool :=
  op.isSource || op.isModifier

theorem Fragment.isValueStep_of_isValueChain {fragment : Fragment}
    (chain : fragment.isValueChain = true) : ∀ op ∈ fragment, op.isValueStep = true := by
  cases fragment with
  | nil => simp
  | cons first rest =>
      simp only [isValueChain, Bool.and_eq_true, List.all_eq_true] at chain
      intro op mem
      rcases List.mem_cons.mp mem with rfl | later
      · simp [Op.isValueStep, chain.1]
      · simp [Op.isValueStep, chain.2 op later]

section

variable {ctx : Context} {locals : LocalTable} {types : Position → Option JType}
variable {pos : Position} {operands operands' : List Fragment}
variable {operandAt? operandAt?' : List Nat → Option Fragment}

namespace Known

theorem mono (known : Known ctx locals types pos operands operandAt?)
    (fewer : operands' ⊆ operands)
    (below : ∀ path operand, operandAt?' path = some operand → operandAt? path = some operand) :
    Known ctx locals types pos operands' operandAt?' where
  chains := fun operand mem => known.chains operand (fewer mem)
  agrees := fun path operand found => known.agrees path operand (below path operand found)

theorem child (known : Known ctx locals types pos operands operandAt?) (step : Nat)
    (fewer : operands' ⊆ operands)
    (below : ∀ path operand, operandAt?' path = some operand →
      operandAt? (step :: path) = some operand) :
    Known ctx locals types (step :: pos) operands' operandAt?' where
  chains := fun operand mem => known.chains operand (fewer mem)
  agrees := fun path operand found => by
    simpa using known.agrees (step :: path) operand (below path operand found)

theorem operand (known : Known ctx locals types pos operands operandAt?) (step : Nat)
    {operand : Fragment} (fewer : operand :: operandsIn operand ⊆ operands)
    (here : ∀ path, operandAt? (step :: path) =
      if path = [] then some operand else operandIn? 0 operand path) :
    KnownOperand ctx locals types (step :: pos) operand where
  chain := known.chains operand (fewer (by simp))
  type_eq := known.agrees [step] operand (by simp [here])
  inner := by
    refine known.child step (fun inner mem => fewer (by simp [mem])) fun path inner found => ?_
    rw [here, if_neg, found]
    rintro rfl
    cases operand <;> simp [operandIn?] at found

end Known

/-- Where a value chain adds one value, it is of the type of the chain. -/
theorem KnownOperand.typed {operand : Fragment}
    (known : KnownOperand ctx locals types pos operand)
    (goes : ∀ ⦃s t⦄, Ready locals types s → codeFrom ctx pos 0 operand s = .ok () t →
      ∃ stack, opsEffect ctx locals operand s.frame.stack = some stack ∧
        Goes ctx.result types s t stack) :
    OfOperand ctx.result locals types ⟨pos, codeFrom ctx pos 0 operand⟩
      (operand.type? ctx locals) where
  evaluates := by
    intro s t ready run one
    obtain ⟨stack, effect, goes⟩ := goes ready run
    rw [goes.stack_eq] at one
    obtain ⟨ty, rfl, typed, notVoid⟩ := Fragment.effect_of_isValueChain known.chain effect one
    exact ⟨ty, typed, notVoid, goes⟩
  known := known.type_eq

theorem argumentTypes?_eq_some {args : List (List Op)} {found : List JType}
    (areTypes : args.map (Fragment.type? ctx locals) = found.map some) :
    argumentTypes? ctx locals args = some found := by
  induction args generalizing found with
  | nil =>
      obtain rfl : found = [] := by simpa using areTypes.symm
      rfl
  | cons arg rest ih =>
      cases found with
      | nil => simp at areTypes
      | cons ty others =>
          obtain ⟨first, areTypes⟩ := List.cons.inj areTypes
          rw [argumentTypes?, show (opsEffect ctx locals arg []).bind soleType = some ty from first,
            ih areTypes]
          rfl

end

/-! ## Value chains and conditions -/

section

variable (ctx : Context) (locals : LocalTable) (types : Position → Option JType)

mutual

theorem Op.body_goes (pos : Position) :
    (op : Op) → op.isValueStep = true →
      Known ctx locals types pos op.operands op.operandAt? →
      ∀ ⦃s t⦄, Ready locals types s → op.body ctx pos s = .ok () t →
        ∃ stack, op.effect ctx locals s.frame.stack = some stack ∧ Goes ctx.result types s t stack
  | .constant value, _, _ => fun s t ready run => ⟨_, rfl, constant_goes ready.alive run⟩
  | .boolean value, _, _ => fun s t ready run => ⟨_, rfl, boolean_goes ready.alive run⟩
  | .null, _, _ => fun s t ready run => ⟨_, rfl, source_goes ready.alive rfl rfl run⟩
  | .this, _, _ => fun s t ready run => ⟨_, rfl, receiverLoad_goes ready.alive run⟩
  | .load source, _, _ => by
      intro s t ready run
      obtain ⟨ty, found, notVoid, goes⟩ := load_goes ready.alive run
      rw [ready.locals_eq] at found
      exact ⟨_, by simp [Op.effect, found, pushed_eq_some, notVoid], goes⟩
  | .getStatic owner name, _, _ => by
      intro s t ready run
      obtain ⟨field, found, notVoid, goes⟩ := getStatic_goes ready.alive run
      exact ⟨_, by simp [Op.effect, found, pushed_eq_some, notVoid], goes⟩
  | .invokeStatic owner name args, _, known => by
      intro s t ready run
      have typed := operandsFrom_typed pos 0 args known
      obtain ⟨found, method, areTypes, resolved, goes⟩ := invokeStatic_goes typed ready run
      exact ⟨_, by simp [Op.effect, argumentTypes?_eq_some areTypes, resolved], goes⟩
  | .construct type args, _, known => by
      intro s t ready run
      have typed := operandsFrom_typed pos 0 args known
      obtain ⟨found, method, areTypes, resolved, notVoid, goes⟩ := construct_goes typed ready run
      refine ⟨_, ?_, goes⟩
      simp [Op.effect, argumentTypes?_eq_some areTypes, resolved, pushed_eq_some, notVoid]
  | .newArray elem length, _, known => by
      intro s t ready run
      have known := known.operand 0 (List.Subset.refl _) fun _ => rfl
      have typed := known.typed (codeFrom_goes (0 :: pos) 0 length
        (Fragment.isValueStep_of_isValueChain known.chain) known.inner)
      exact ⟨_, rfl, newArray_goes typed.evaluates ready run⟩
  | .conditional cond thenArm elseArm, _, known => by
      intro s t ready run
      have branching := cond.branch_branching (0 :: pos) (known.child 0 (by simp [Op.operands])
        fun _ _ found => found)
      have knownThen := known.operand 1
        (List.Subset.trans (List.subset_append_right _ _) (List.subset_append_left _ _))
        fun _ => rfl
      have knownElse := known.operand 2 (List.subset_append_right _ _) fun _ => rfl
      have typedThen := knownThen.typed (codeFrom_goes (1 :: pos) 0 thenArm
        (Fragment.isValueStep_of_isValueChain knownThen.chain) knownThen.inner)
      have typedElse := knownElse.typed (codeFrom_goes (2 :: pos) 0 elseArm
        (Fragment.isValueStep_of_isValueChain knownElse.chain) knownElse.inner)
      obtain ⟨foundThen, foundElse, ty, isThen, isElse, common, notVoid, goes⟩ :=
        conditional_goes branching typedThen typedElse ready run
      unfold Fragment.type? at isThen isElse
      exact ⟨_, by simp [Op.effect, isThen, isElse, common, pushed_eq_some, notVoid], goes⟩
  | .condValue cond, _, known => by
      intro s t ready run
      have branching := cond.branch_branching (0 :: pos) (known.child 0 (by simp [Op.operands])
        fun _ _ found => found)
      exact ⟨_, rfl, condValue_goes branching ready run⟩
  | .getField name, _, _ => by
      intro s t ready run
      obtain ⟨owner, rest, field, stackEq, found, notVoid, goes⟩ := getField_goes ready.alive run
      exact ⟨_, by rw [stackEq]; simp [Op.effect, found, pushed_eq_some, notVoid], goes⟩
  | .invoke name args, _, known => by
      intro s t ready run
      have typed := operandsFrom_typed pos 0 args known
      obtain ⟨owner, rest, found, method, stackEq, areTypes, resolved, goes⟩ :=
        invoke_goes typed ready run
      exact ⟨_, by rw [stackEq]; simp [Op.effect, argumentTypes?_eq_some areTypes, resolved], goes⟩
  | .arith op right, _, known => by
      intro s t ready run
      have known := known.operand 0 (List.Subset.refl _) fun _ => rfl
      have typed := known.typed (codeFrom_goes (0 :: pos) 0 right
        (Fragment.isValueStep_of_isValueChain known.chain) known.inner)
      obtain ⟨left, rest, rightType, result, converted, stackEq, isRight, applicable, notVoid,
        goes⟩ := arith_goes typed ready run
      unfold Fragment.type? at isRight
      exact ⟨_, by rw [stackEq]; simp [Op.effect, isRight, applicable, pushed_eq_some, notVoid], goes⟩
  | .negate, _, _ => by
      intro s t ready run
      obtain ⟨top, rest, p, stackEq, promoted, goes⟩ := negate_goes ready.alive run
      exact ⟨_, by rw [stackEq]; simp [Op.effect, promoted], goes⟩
  | .cast target, _, _ => by
      intro s t ready run
      obtain ⟨source, rest, stackEq, values, goes⟩ := castTop_goes ready.alive run
      refine ⟨_, ?_, goes⟩
      rw [stackEq]
      cases sourceVoid : source.isVoid <;> simp_all [Op.effect]
  | .convert target, _, _ => by
      intro s t ready run
      obtain ⟨source, rest, stackEq, values, goes⟩ := coerceTop_goes ready.alive run
      refine ⟨_, ?_, goes⟩
      rw [stackEq]
      cases sourceVoid : source.isVoid <;> simp_all [Op.effect]
  | .instanceOf type, _, _ => by
      intro s t ready run
      obtain ⟨top, rest, stackEq, goes⟩ := instanceOf_goes ready.alive run
      exact ⟨_, by rw [stackEq]; simp [Op.effect], goes⟩
  | .arrayLength, _, _ => by
      intro s t ready run
      obtain ⟨top, rest, stackEq, goes⟩ := arrayLength_goes ready.alive run
      exact ⟨_, by rw [stackEq]; simp [Op.effect], goes⟩
  | .arrayLoad index, _, known => by
      intro s t ready run
      have known := known.operand 0 (List.Subset.refl _) fun _ => rfl
      have typed := known.typed (codeFrom_goes (0 :: pos) 0 index
        (Fragment.isValueStep_of_isValueChain known.chain) known.inner)
      obtain ⟨elem, rest, stackEq, notVoid, goes⟩ := arrayLoad_goes typed.evaluates ready run
      exact ⟨_, by rw [stackEq]; simp [Op.effect, JType.element?, pushed_eq_some, notVoid], goes⟩
  | .store .., step, _ | .declare .., step, _ | .declareUninit .., step, _
  | .increment .., step, _ | .putField .., step, _ | .putStatic .., step, _
  | .superInit .., step, _ | .arrayStore .., step, _ | .pop, step, _ | .returnValue, step, _
  | .returnVoid, step, _ | .throw, step, _ | .ifThen .., step, _ | .ifElse .., step, _
  | .whileLoop .., step, _ | .block .., step, _ | .malformed .., step, _ =>
      absurd step Bool.false_ne_true

theorem codeFrom_goes (pos : Position) (index : Nat) :
    (ops : List Op) → (∀ op ∈ ops, op.isValueStep = true) →
      Known ctx locals types pos (operandsIn ops) (operandIn? index ops) →
      ∀ ⦃s t⦄, Ready locals types s → codeFrom ctx pos index ops s = .ok () t →
        ∃ stack, opsEffect ctx locals ops s.frame.stack = some stack ∧
          Goes ctx.result types s t stack
  | [], _, _ => by
      intro s t ready run
      obtain ⟨-, rfl⟩ := pure_eq_ok.mp run
      exact ⟨_, rfl, Goes.refl ready.alive⟩
  | op :: rest, steps, known => by
      intro s t ready run
      obtain ⟨_, u, first, others⟩ := bind_eq_ok.mp run
      have knownOp : Known ctx locals types (index :: pos) op.operands op.operandAt? :=
        known.child index (by simp [operandsIn]) fun path operand found => by
          simpa [operandIn?] using found
      have knownRest :
          Known ctx locals types pos (operandsIn rest) (operandIn? (index + 1) rest) :=
        known.mono (by simp [operandsIn]) fun _ _ => operandIn?_cons_of_rest
      obtain ⟨middle, effect, goes⟩ :
          ∃ middle, op.effect ctx locals s.frame.stack = some middle ∧
            Goes ctx.result types s u middle :=
        operation_goes (fun v w ready stackEq ran => stackEq ▸
          op.body_goes (index :: pos) (steps op (by simp)) knownOp ready ran) ready first
      obtain ⟨stack, effects, goesOn⟩ := codeFrom_goes pos (index + 1) rest
        (fun op mem => steps op (by simp [mem])) knownRest (goes.ready ready) others
      rw [goes.stack_eq] at effects
      exact ⟨stack, by simp [opsEffect, effect, effects], goes.trans goesOn⟩

theorem operandsFrom_typed (pos : Position) (index : Nat) :
    (args : List (List Op)) →
      Known ctx locals types pos (operandsInArgs args) (argumentAt? index args) →
      OfOperands ctx.result locals types (operandsFrom ctx pos index args)
        (args.map (Fragment.type? ctx locals))
  | [], _ => .nil
  | arg :: rest, known => by
      have knownArg : KnownOperand ctx locals types (index :: pos) arg :=
        known.operand index (by simp [operandsInArgs]) fun path => by simp [argumentAt?]
      refine .cons (knownArg.typed (codeFrom_goes (index :: pos) 0 arg
        (Fragment.isValueStep_of_isValueChain knownArg.chain) knownArg.inner)) ?_
      exact operandsFrom_typed pos (index + 1) rest
        (known.mono (by simp [operandsInArgs]) fun _ _ => argumentAt?_cons_of_rest)

theorem Cond.branch_branching (pos : Position) :
    (c : Cond) → Known ctx locals types pos c.operands c.operandAt? →
      Branching ctx.result locals types (c.branch ctx pos)
  | .const value, _ => constBranch_branching value
  | .truth value, known =>
      have known := known.operand 0 (List.Subset.refl _) fun _ => rfl
      truthBranch_branching true (known.typed (codeFrom_goes (0 :: pos) 0 value
        (Fragment.isValueStep_of_isValueChain known.chain) known.inner)).evaluates
  | .falsity value, known =>
      have known := known.operand 0 (List.Subset.refl _) fun _ => rfl
      truthBranch_branching false (known.typed (codeFrom_goes (0 :: pos) 0 value
        (Fragment.isValueStep_of_isValueChain known.chain) known.inner)).evaluates
  | .isNull value, known =>
      have known := known.operand 0 (List.Subset.refl _) fun _ => rfl
      nullBranch_branching true (known.typed (codeFrom_goes (0 :: pos) 0 value
        (Fragment.isValueStep_of_isValueChain known.chain) known.inner))
  | .nonNull value, known =>
      have known := known.operand 0 (List.Subset.refl _) fun _ => rfl
      nullBranch_branching false (known.typed (codeFrom_goes (0 :: pos) 0 value
        (Fragment.isValueStep_of_isValueChain known.chain) known.inner))
  | .compare op left right nan, known =>
      have knownLeft := known.operand 0 (by simp [Cond.operands]) fun _ => rfl
      have knownRight := known.operand 1 (by simp [Cond.operands]) fun _ => rfl
      compareBranch_branching
        (knownLeft.typed (codeFrom_goes (0 :: pos) 0 left
          (Fragment.isValueStep_of_isValueChain knownLeft.chain) knownLeft.inner))
        (knownRight.typed (codeFrom_goes (1 :: pos) 0 right
          (Fragment.isValueStep_of_isValueChain knownRight.chain) knownRight.inner))
  | .conj parts, known => conjBranch_branching (branchesFrom_branching pos 0 parts known)
  | .disj parts, known => disjBranch_branching (branchesFrom_branching pos 0 parts known)

theorem branchesFrom_branching (pos : Position) (index : Nat) :
    (parts : List Cond) →
      Known ctx locals types pos (operandsInParts parts) (operandInParts? index parts) →
      ∀ part ∈ branchesFrom ctx pos index parts, Branching ctx.result locals types part
  | [], _ => fun _ mem => absurd mem List.not_mem_nil
  | part :: rest, known => by
      intro branch mem
      rcases List.mem_cons.mp mem with rfl | later
      · exact part.branch_branching (index :: pos) (known.child index (by simp [operandsInParts])
          fun path operand found => by simpa [operandInParts?] using found)
      · exact branchesFrom_branching pos (index + 1) rest
          (known.mono (by simp [operandsInParts]) fun _ _ => operandInParts?_cons_of_rest)
          branch later

end

end

theorem KnownOperand.ofOperand {ctx : Context} {locals : LocalTable}
    {types : Position → Option JType} {pos : Position} {operand : Fragment}
    (known : KnownOperand ctx locals types pos operand) :
    OfOperand ctx.result locals types ⟨pos, codeFrom ctx pos 0 operand⟩
      (operand.type? ctx locals) :=
  known.typed (codeFrom_goes ctx locals types pos 0 operand
    (Fragment.isValueStep_of_isValueChain known.chain) known.inner)

/-! ## Types for a fresh state -/

/-- Value chains whose positions hold nothing in the memory can be given their
types. -/
theorem exists_known {operands : List Fragment} {operandAt? : List Nat → Option Fragment}
    (ctx : Context) (pos : Position) (s : State)
    (chains : ∀ operand ∈ operands, operand.isValueChain = true)
    (unprobed : ∀ path operand, operandAt? path = some operand →
      s.probed[path.reverse ++ pos]? = none) :
    ∃ types, Knows types s ∧ Known ctx s.frame.locals types pos operands operandAt? := by
  let pathTo (p : Position) : List Nat := (p.take (p.length - pos.length)).reverse
  let types (p : Position) : Option JType :=
    if pos <:+ p ∧ (operandAt? (pathTo p)).isSome then
      (operandAt? (pathTo p)).bind (Fragment.type? ctx s.frame.locals)
    else s.probed[p]?
  refine ⟨types, fun p ty found => ?_, ⟨chains, fun path operand found => ?_⟩⟩
  · have elsewhere : ¬(pos <:+ p ∧ (operandAt? (pathTo p)).isSome) := by
      rintro ⟨⟨above, rfl⟩, isOperand⟩
      obtain ⟨operand, isOperand⟩ := Option.isSome_iff_exists.mp isOperand
      have nothing := unprobed _ operand isOperand
      simp [pathTo, found] at nothing
    simp only [types, if_neg elsewhere, found]
  · have back : pathTo (path.reverse ++ pos) = path := by simp [pathTo]
    simp [types, back, found]

end JvmAssembler
