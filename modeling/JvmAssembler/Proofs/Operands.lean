import Mathlib
import JvmAssembler.Generate.Body

/-!
# Operand fragments and their types

The fragments that operations consume: initialisers, stored values, arguments,
indices, lengths, right operands, arms of conditionals and operands of
conditions.  They are found by the path that leads to them, which is how the
generator numbers their positions.

A value chain is a source followed by operations on the value on top.  What such
operations do to the types on the operand stack is a function of the operations
and the types of the locals; for a value chain it does not depend on what lies
below on the stack.
-/

namespace JvmAssembler

/-! ## Value chains -/

/-- Operations that produce a value from nothing on the stack. -/
def Op.isSource : Op → Bool
  | .constant _ | .boolean _ | .null | .this | .load _ | .getStatic .. | .invokeStatic ..
  | .construct .. | .newArray .. | .conditional .. | .condValue _ => true
  | _ => false

/-- Operations on the value on top. -/
def Op.isModifier : Op → Bool
  | .getField _ | .invoke .. | .arith .. | .negate | .cast _ | .convert _ | .instanceOf _
  | .arrayLength | .arrayLoad _ => true
  | _ => false

/-- One source followed by operations on the value on top. -/
def Fragment.isValueChain : Fragment → Bool
  | [] => false
  | first :: rest => first.isSource && rest.all Op.isModifier

/-! ## Operands by path -/

mutual

/-- The operand fragment at a path below an operation, outermost step first. -/
def Op.operandAt? : Op → List Nat → Option Fragment
  | .store _ value, 0 :: path | .declare _ _ value, 0 :: path | .putField _ value, 0 :: path
  | .putStatic _ _ value, 0 :: path | .newArray _ value, 0 :: path | .arrayLoad value, 0 :: path
  | .arith _ value, 0 :: path | .arrayStore value _, 0 :: path | .arrayStore _ value, 1 :: path
  | .conditional _ value _, 1 :: path | .conditional _ _ value, 2 :: path =>
      if path = [] then some value else operandIn? 0 value path
  | .invoke _ args, path | .invokeStatic _ _ args, path | .construct _ args, path
  | .superInit args, path => argumentAt? 0 args path
  | .ifThen cond _, 0 :: path | .ifElse cond _ _, 0 :: path | .whileLoop cond _, 0 :: path
  | .conditional cond _ _, 0 :: path | .condValue cond, 0 :: path => cond.operandAt? path
  | .ifThen _ body, 1 :: path | .ifElse _ body _, 1 :: path | .ifElse _ _ body, 2 :: path
  | .whileLoop _ body, 1 :: path | .block body, 0 :: path => operandIn? 0 body path
  | _, _ => none

/-- The operand fragment at a path below operations numbered from `index` on. -/
def operandIn? (index : Nat) : List Op → List Nat → Option Fragment
  | op :: rest, step :: path =>
      if step = index then op.operandAt? path else operandIn? (index + 1) rest (step :: path)
  | _, _ => none

/-- The operand fragment at a path below arguments numbered from `index` on. -/
def argumentAt? (index : Nat) : List (List Op) → List Nat → Option Fragment
  | arg :: rest, step :: path =>
      if step = index then if path = [] then some arg else operandIn? 0 arg path
      else argumentAt? (index + 1) rest (step :: path)
  | _, _ => none

/-- The operand fragment at a path below a condition. -/
def Cond.operandAt? : Cond → List Nat → Option Fragment
  | .truth value, 0 :: path | .falsity value, 0 :: path | .isNull value, 0 :: path
  | .nonNull value, 0 :: path | .compare _ value _ _, 0 :: path
  | .compare _ _ value _, 1 :: path =>
      if path = [] then some value else operandIn? 0 value path
  | .conj parts, path | .disj parts, path => operandInParts? 0 parts path
  | _, _ => none

/-- The operand fragment at a path below conditions numbered from `index` on. -/
def operandInParts? (index : Nat) : List Cond → List Nat → Option Fragment
  | part :: rest, step :: path =>
      if step = index then part.operandAt? path
      else operandInParts? (index + 1) rest (step :: path)
  | _, _ => none

end

section

variable {index step : Nat} {path : List Nat} {operand : Fragment}

theorem operandIn?_step_le {ops : List Op} (found : operandIn? index ops (step :: path) = some operand) :
    index ≤ step := by
  induction ops generalizing index with
  | nil => simp [operandIn?] at found
  | cons op rest ih =>
      rw [operandIn?] at found
      split at found
      · omega
      · have := ih found
        omega

theorem argumentAt?_step_le {args : List (List Op)}
    (found : argumentAt? index args (step :: path) = some operand) : index ≤ step := by
  induction args generalizing index with
  | nil => simp [argumentAt?] at found
  | cons arg rest ih =>
      rw [argumentAt?] at found
      split at found
      · omega
      · have := ih found
        omega

theorem operandInParts?_step_le {parts : List Cond}
    (found : operandInParts? index parts (step :: path) = some operand) : index ≤ step := by
  induction parts generalizing index with
  | nil => simp [operandInParts?] at found
  | cons part rest ih =>
      rw [operandInParts?] at found
      split at found
      · omega
      · have := ih found
        omega

theorem operandIn?_cons_of_rest {op : Op} {rest : List Op}
    (found : operandIn? (index + 1) rest path = some operand) :
    operandIn? index (op :: rest) path = some operand := by
  cases path with
  | nil => cases rest <;> simp [operandIn?] at found
  | cons step path =>
      have := operandIn?_step_le found
      rw [operandIn?, if_neg (by omega), found]

theorem operandIn?_append_of_left {ops more : List Op}
    (found : operandIn? index ops path = some operand) :
    operandIn? index (ops ++ more) path = some operand := by
  induction ops generalizing index with
  | nil => simp [operandIn?] at found
  | cons op rest ih =>
      cases path with
      | nil => simp [operandIn?] at found
      | cons step path =>
          simp only [List.cons_append, operandIn?] at found ⊢
          split at found
          · rwa [if_pos (by assumption)]
          · rw [if_neg (by assumption), ih found]

theorem argumentAt?_cons_of_rest {arg : List Op} {rest : List (List Op)}
    (found : argumentAt? (index + 1) rest path = some operand) :
    argumentAt? index (arg :: rest) path = some operand := by
  cases path with
  | nil => cases rest <;> simp [argumentAt?] at found
  | cons step path =>
      have := argumentAt?_step_le found
      rw [argumentAt?, if_neg (by omega), found]

theorem operandInParts?_cons_of_rest {part : Cond} {rest : List Cond}
    (found : operandInParts? (index + 1) rest path = some operand) :
    operandInParts? index (part :: rest) path = some operand := by
  cases path with
  | nil => cases rest <;> simp [operandInParts?] at found
  | cons step path =>
      have := operandInParts?_step_le found
      rw [operandInParts?, if_neg (by omega), found]

end

/-- Operands stand below operations, not in their place. -/
theorem Op.exists_step_of_operandAt? {op : Op} {path : List Nat} {operand : Fragment}
    (found : op.operandAt? path = some operand) : ∃ step rest, path = step :: rest := by
  cases path with
  | cons step rest => exact ⟨step, rest, rfl⟩
  | nil =>
      cases op with
      | invoke name args | invokeStatic owner name args | construct type args | superInit args =>
          cases args <;> simp [operandAt?, argumentAt?] at found
      | _ => simp [operandAt?] at found

/-! ## All operands -/

mutual

/-- Every operand fragment of an operation, with the operands inside it. -/
def Op.operands : Op → List Fragment
  | .store _ value | .declare _ _ value | .putField _ value | .putStatic _ _ value
  | .newArray _ value | .arrayLoad value | .arith _ value => value :: operandsIn value
  | .arrayStore index value => index :: operandsIn index ++ value :: operandsIn value
  | .invoke _ args | .invokeStatic _ _ args | .construct _ args | .superInit args =>
      operandsInArgs args
  | .ifThen cond body | .whileLoop cond body => cond.operands ++ operandsIn body
  | .ifElse cond body otherwise => cond.operands ++ operandsIn body ++ operandsIn otherwise
  | .conditional cond thenArm elseArm =>
      cond.operands ++ (thenArm :: operandsIn thenArm) ++ elseArm :: operandsIn elseArm
  | .condValue cond => cond.operands
  | .block body => operandsIn body
  | _ => []

/-- Every operand fragment of operations. -/
def operandsIn : List Op → List Fragment
  | [] => []
  | op :: rest => op.operands ++ operandsIn rest

/-- Arguments and the operand fragments inside them. -/
def operandsInArgs : List (List Op) → List Fragment
  | [] => []
  | arg :: rest => arg :: operandsIn arg ++ operandsInArgs rest

/-- Every operand fragment of a condition. -/
def Cond.operands : Cond → List Fragment
  | .const _ => []
  | .truth value | .falsity value | .isNull value | .nonNull value => value :: operandsIn value
  | .compare _ left right _ => left :: operandsIn left ++ right :: operandsIn right
  | .conj parts | .disj parts => operandsInParts parts

/-- Every operand fragment of conditions. -/
def operandsInParts : List Cond → List Fragment
  | [] => []
  | part :: rest => part.operands ++ operandsInParts rest

end

/-! ## Types -/

/-- The declared type of a local variable. -/
def localType? (locals : LocalTable) : LocalRef → Option JType
  | .named name =>
      (Frame.indexIn? locals name).bind fun index =>
        Frame.typeIn? locals index.toUInt16.toNat
  | .slot index => Frame.typeIn? locals index.toNat

/-- A stack with one more value; there is none of type `void`. -/
def pushed (ty : JType) (stack : List JType) : Option (List JType) :=
  if ty.isVoid then none else some (ty :: stack)

theorem pushed_eq_some {ty : JType} {stack after : List JType} :
    pushed ty stack = some after ↔ ty.isVoid = false ∧ after = ty :: stack := by
  unfold pushed
  cases ty.isVoid <;> simp [eq_comm]

/-- What a call leaves on the stack. -/
def Member.results (method : Member) : List JType :=
  if method.valueType.isVoid then [] else [method.valueType]

theorem Member.length_results_le (method : Member) : method.results.length ≤ 1 := by
  unfold results
  split <;> simp

theorem Member.isVoid_of_mem_results {method : Member} {ty : JType} (mem : ty ∈ method.results) :
    ty.isVoid = false := by
  unfold results at mem
  split at mem
  · simp at mem
  · rename_i notVoid
    obtain rfl := List.mem_singleton.mp mem
    simpa using notVoid

/-- The only type on a stack. -/
def soleType : List JType → Option JType
  | [ty] => some ty
  | _ => none

mutual

/-- What an operation of a value chain does to the types on the stack, top
first, if it succeeds. -/
def Op.effect (ctx : Context) (locals : LocalTable) : Op → List JType → Option (List JType)
  | .constant value, stack => some (value.type :: stack)
  | .boolean _, stack | .condValue _, stack => some (.boolean :: stack)
  | .null, stack => some (.null :: stack)
  | .this, stack => some (.self :: stack)
  | .load source, stack => (localType? locals source).bind fun ty => pushed ty stack
  | .getStatic owner name, stack =>
      (ctx.table.resolveField owner name).bind fun field => pushed field.valueType stack
  | .invokeStatic owner name args, stack =>
      (argumentTypes? ctx locals args).bind fun types =>
        (ctx.table.resolve owner name types false).map fun method => method.results ++ stack
  | .construct type args, stack =>
      (argumentTypes? ctx locals args).bind fun types =>
        (ctx.table.resolve type constructorName types true).bind fun method =>
          (pushed type stack).map (method.results ++ ·)
  | .newArray elem _, stack => some (.array elem :: stack)
  | .conditional _ thenArm elseArm, stack =>
      ((opsEffect ctx locals thenArm []).bind soleType).bind fun thenType =>
        ((opsEffect ctx locals elseArm []).bind soleType).bind fun elseType =>
          match JType.common ctx.table ctx.config.narrowReinterpretation thenType elseType with
          | .ok ty => pushed ty stack
          | .error _ => none
  | .getField name, top :: stack =>
      (ctx.table.resolveField top name).bind fun field => pushed field.valueType stack
  | .invoke name args, top :: stack =>
      (argumentTypes? ctx locals args).bind fun types =>
        (ctx.table.resolve top name types false).map fun method => method.results ++ stack
  | .arith op right, top :: stack =>
      ((opsEffect ctx locals right []).bind soleType).bind fun rightType =>
        (Gen.operandTypes? op top rightType).bind fun types => pushed types.1 stack
  | .negate, top :: stack => top.unaryPromotion?.map fun p => .primitive p :: stack
  | .cast target, top :: stack | .convert target, top :: stack =>
      if target.isVoid && !top.isVoid then none else some (target :: stack)
  | .instanceOf _, _ :: stack => some (.boolean :: stack)
  | .arrayLength, _ :: stack => some (.int :: stack)
  | .arrayLoad _, top :: stack => top.element?.bind fun elem => pushed elem stack
  | _, _ => none

/-- What operations do to the types on the stack. -/
def opsEffect (ctx : Context) (locals : LocalTable) :
    List Op → List JType → Option (List JType)
  | [], stack => some stack
  | op :: rest, stack => (op.effect ctx locals stack).bind (opsEffect ctx locals rest)

/-- The types of arguments. -/
def argumentTypes? (ctx : Context) (locals : LocalTable) :
    List (List Op) → Option (List JType)
  | [] => some []
  | arg :: rest =>
      ((opsEffect ctx locals arg []).bind soleType).bind fun ty =>
        (argumentTypes? ctx locals rest).map (ty :: ·)

end

/-- The type of the value that a value chain leaves. -/
def Fragment.type? (ctx : Context) (locals : LocalTable) (fragment : Fragment) :
    Option JType :=
  (opsEffect ctx locals fragment []).bind soleType

variable {ctx : Context} {locals : LocalTable}

/-- A source does not look at the stack. -/
theorem Op.effect_of_isSource {op : Op} (source : op.isSource = true) {stack after : List JType}
    (effect : op.effect ctx locals stack = some after) :
    ∃ own, after = own ++ stack ∧ op.effect ctx locals [] = some own ∧
      ∀ ty ∈ own, ty.isVoid = false := by
  cases op with
  | constant value =>
      cases effect
      exact ⟨[value.type], rfl, rfl, by cases value <;> simp [Literal.type, JType.isVoid, JType.string]⟩
  | boolean | null | this | newArray | condValue =>
      cases effect
      exact ⟨_, rfl, rfl, by simp [JType.isVoid]⟩
  | load source =>
      obtain ⟨ty, found, push⟩ := Option.bind_eq_some_iff.mp effect
      obtain ⟨notVoid, rfl⟩ := pushed_eq_some.mp push
      exact ⟨[ty], rfl, by simp [Op.effect, found, pushed, notVoid], by simp [notVoid]⟩
  | getStatic owner name =>
      obtain ⟨field, found, push⟩ := Option.bind_eq_some_iff.mp effect
      obtain ⟨notVoid, rfl⟩ := pushed_eq_some.mp push
      exact ⟨[field.valueType], rfl, by simp [Op.effect, found, pushed, notVoid], by simp [notVoid]⟩
  | invokeStatic owner name args =>
      obtain ⟨types, argTypes, resolved⟩ := Option.bind_eq_some_iff.mp effect
      obtain ⟨method, found, rfl⟩ := Option.map_eq_some_iff.mp resolved
      exact ⟨method.results, rfl, by simp [Op.effect, argTypes, found],
        fun _ => Member.isVoid_of_mem_results⟩
  | construct type args =>
      obtain ⟨types, argTypes, resolved⟩ := Option.bind_eq_some_iff.mp effect
      obtain ⟨method, found, created⟩ := Option.bind_eq_some_iff.mp resolved
      obtain ⟨_, push, rfl⟩ := Option.map_eq_some_iff.mp created
      obtain ⟨notVoid, rfl⟩ := pushed_eq_some.mp push
      refine ⟨method.results ++ [type], by simp, ?_, ?_⟩
      · simp [Op.effect, argTypes, found, pushed, notVoid]
      · intro ty mem
        rcases List.mem_append.mp mem with result | isType
        · exact Member.isVoid_of_mem_results result
        · exact List.mem_singleton.mp isType ▸ notVoid
  | conditional cond thenArm elseArm =>
      obtain ⟨thenType, typedThen, rest⟩ := Option.bind_eq_some_iff.mp effect
      obtain ⟨elseType, typedElse, agreed⟩ := Option.bind_eq_some_iff.mp rest
      split at agreed
      · rename_i ty common
        obtain ⟨notVoid, rfl⟩ := pushed_eq_some.mp agreed
        refine ⟨[ty], rfl, ?_, by simp [notVoid]⟩
        simp [Op.effect, typedThen, typedElse, common, pushed, notVoid]
      · contradiction
  | _ => contradiction

/-- A modifier looks at the top only and leaves at most one value in its
place. -/
theorem Op.effect_of_isModifier {op : Op} (modifier : op.isModifier = true)
    {stack after : List JType} (effect : op.effect ctx locals stack = some after) :
    ∃ top rest results, stack = top :: rest ∧ after = results ++ rest ∧ results.length ≤ 1 ∧
      (∀ below, op.effect ctx locals (top :: below) = some (results ++ below)) ∧
      (top.isVoid = false → ∀ ty ∈ results, ty.isVoid = false) := by
  cases stack with
  | nil => cases op <;> contradiction
  | cons top rest =>
      cases op with
      | getField name =>
          obtain ⟨field, found, push⟩ := Option.bind_eq_some_iff.mp effect
          obtain ⟨notVoid, rfl⟩ := pushed_eq_some.mp push
          exact ⟨top, rest, [field.valueType], rfl, rfl, by simp,
            by simp [Op.effect, found, pushed, notVoid], by simp [notVoid]⟩
      | invoke name args =>
          obtain ⟨types, argTypes, resolved⟩ := Option.bind_eq_some_iff.mp effect
          obtain ⟨method, found, rfl⟩ := Option.map_eq_some_iff.mp resolved
          exact ⟨top, rest, method.results, rfl, rfl, method.length_results_le,
            by simp [Op.effect, argTypes, found], fun _ _ => Member.isVoid_of_mem_results⟩
      | arith op right =>
          obtain ⟨rightType, typed, applied⟩ := Option.bind_eq_some_iff.mp effect
          obtain ⟨types, found, push⟩ := Option.bind_eq_some_iff.mp applied
          obtain ⟨notVoid, rfl⟩ := pushed_eq_some.mp push
          exact ⟨top, rest, [types.1], rfl, rfl, by simp,
            by simp [Op.effect, typed, found, pushed, notVoid], by simp [notVoid]⟩
      | negate =>
          obtain ⟨p, found, rfl⟩ := Option.map_eq_some_iff.mp effect
          exact ⟨top, rest, [.primitive p], rfl, rfl, by simp, by simp [Op.effect, found],
            by simp [JType.isVoid]⟩
      | arrayLoad index =>
          obtain ⟨elem, found, push⟩ := Option.bind_eq_some_iff.mp effect
          obtain ⟨notVoid, rfl⟩ := pushed_eq_some.mp push
          exact ⟨top, rest, [elem], rfl, rfl, by simp,
            by simp [Op.effect, found, pushed, notVoid], by simp [notVoid]⟩
      | cast target | convert target =>
          simp only [Op.effect] at effect
          split at effect
          · contradiction
          · rename_i allowed
            cases effect
            refine ⟨top, rest, [target], rfl, rfl, by simp, by simp [Op.effect, allowed], ?_⟩
            intro notVoid
            simpa [notVoid] using allowed
      | instanceOf type =>
          cases effect
          exact ⟨top, rest, [.boolean], rfl, rfl, by simp, by simp [Op.effect],
            by simp [JType.isVoid]⟩
      | arrayLength =>
          cases effect
          exact ⟨top, rest, [.int], rfl, rfl, by simp, by simp [Op.effect], by simp [JType.isVoid]⟩
      | _ => contradiction

theorem opsEffect_length_le {rest : List Op} (modifiers : rest.all Op.isModifier = true)
    {stack after : List JType} (effect : opsEffect ctx locals rest stack = some after) :
    after.length ≤ stack.length := by
  induction rest generalizing stack with
  | nil =>
      cases effect
      exact le_rfl
  | cons op rest ih =>
      obtain ⟨modifier, modifiers⟩ := Bool.and_eq_true_iff.mp modifiers
      obtain ⟨middle, first, others⟩ := Option.bind_eq_some_iff.mp effect
      obtain ⟨top, below, results, rfl, rfl, few, -⟩ := Op.effect_of_isModifier modifier first
      have shorter := ih modifiers others
      simp only [List.length_append, List.length_cons] at shorter ⊢
      omega

/-- Modifiers that end one value above `base` never reached into it. -/
theorem opsEffect_of_modifiers {rest : List Op} (modifiers : rest.all Op.isModifier = true)
    {own base stack : List JType} (ownValues : ∀ ty ∈ own, ty.isVoid = false)
    (effect : opsEffect ctx locals rest (own ++ base) = some stack)
    (one : stack.length = base.length + 1) :
    ∃ ty, stack = ty :: base ∧ opsEffect ctx locals rest own = some [ty] ∧ ty.isVoid = false := by
  induction rest generalizing own with
  | nil =>
      cases effect
      simp only [List.length_append] at one
      obtain ⟨ty, rfl⟩ : ∃ ty, own = [ty] := List.length_eq_one_iff.mp (by omega)
      exact ⟨ty, rfl, rfl, ownValues ty (by simp)⟩
  | cons op rest ih =>
      obtain ⟨modifier, modifiers⟩ := Bool.and_eq_true_iff.mp modifiers
      obtain ⟨middle, first, others⟩ := Option.bind_eq_some_iff.mp effect
      obtain ⟨top, below, results, split, rfl, few, acts, values⟩ :=
        Op.effect_of_isModifier modifier first
      cases own with
      | nil =>
          -- A modifier that consumed a value of `base` leaves too few to end above it.
          have shorter := opsEffect_length_le modifiers others
          have depth := congrArg List.length split
          simp only [List.nil_append, List.length_append, List.length_cons] at shorter depth
          omega
      | cons own₀ own =>
          rw [List.cons_append] at split
          obtain ⟨rfl, rfl⟩ := List.cons.inj split
          rw [← List.append_assoc] at others
          have stillValues : ∀ ty ∈ results ++ own, ty.isVoid = false := by
            intro ty mem
            rcases List.mem_append.mp mem with new | old
            · exact values (ownValues own₀ (by simp)) ty new
            · exact ownValues ty (by simp [old])
          obtain ⟨ty, stackEq, typed, notVoid⟩ := ih modifiers stillValues others
          refine ⟨ty, stackEq, ?_, notVoid⟩
          simp [opsEffect, acts own, typed]

/-- What a value chain that adds one value to the stack does: it leaves the rest
of the stack alone and its type is that of the value. -/
theorem Fragment.effect_of_isValueChain {fragment : Fragment}
    (chain : fragment.isValueChain = true) {base stack : List JType}
    (effect : opsEffect ctx locals fragment base = some stack)
    (one : stack.length = base.length + 1) :
    ∃ ty, stack = ty :: base ∧ fragment.type? ctx locals = some ty ∧ ty.isVoid = false := by
  cases fragment with
  | nil => contradiction
  | cons op rest =>
      obtain ⟨source, modifiers⟩ := Bool.and_eq_true_iff.mp chain
      obtain ⟨middle, first, others⟩ := Option.bind_eq_some_iff.mp effect
      obtain ⟨own, rfl, pushes, values⟩ := Op.effect_of_isSource source first
      obtain ⟨ty, stackEq, typed, notVoid⟩ := opsEffect_of_modifiers modifiers values others one
      refine ⟨ty, stackEq, ?_, notVoid⟩
      simp [Fragment.type?, opsEffect, pushes, typed, soleType]

end JvmAssembler
