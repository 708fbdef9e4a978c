import Mathlib
import JvmAssembler.Instr

/-!
# What instructions do to the operand stack

The machine tells operands apart by five categories.  Every instruction says
which categories it takes from the stack and which it leaves, by its opcode and,
for member instructions, by the descriptor.  `flow` checks instructions in the
order in which they are written, given a stack for every label; `none` stands
for the stack at a place that cannot be reached.
-/

namespace JvmAssembler

/-- Kinds of operands that instructions distinguish. -/
inductive Category where
  | int
  | long
  | float
  | double
  | reference
  deriving DecidableEq

/-- Categories that take two slots. -/
def Category.isWide : Category → Bool
  | .long | .double => true
  | _ => false

def Primitive.category : Primitive → Category
  | .long => .long
  | .float => .float
  | .double => .double
  | _ => .int

/-- The category of values of a type.  There are no values of type `void`; it
counts as a reference. -/
def JType.category : JType → Category
  | .primitive p => p.category
  | _ => .reference

@[simp]
theorem JType.category_primitive (p : Primitive) : (JType.primitive p).category = p.category :=
  rfl

theorem JType.category_of_notPrimitive {ty : JType} (notPrimitive : ty.isPrimitive = false) :
    ty.category = .reference := by
  cases ty with
  | primitive p => contradiction
  | _ => rfl

theorem JType.category_of_isReference {ty : JType} (reference : ty.isReference = true) :
    ty.category = .reference := by
  cases ty with
  | primitive p => contradiction
  | _ => rfl

theorem JType.isWide_category (ty : JType) : ty.category.isWide = ty.isWide := by
  cases ty with
  | primitive p => cases p <;> rfl
  | _ => rfl

@[simp]
theorem Primitive.category_computational (p : Primitive) : p.computational.category = p.category := by
  cases p <;> rfl

/-- What an instruction takes from the stack and what it leaves there, both top
first. -/
structure StackEffect where
  takes : List Category
  leaves : List Category
  deriving DecidableEq

namespace Opcode

/-- The categories in the order of the typed instruction families. -/
def familyCategory (index : UInt8) : Category :=
  if index = 0 then .int
  else if index = 1 then .long
  else if index = 2 then .float
  else if index = 3 then .double
  else if index = 4 then .reference
  else .int

/-- The effect of a conversion, which stand in the order of `i2l`. -/
def conversionEffect (code : Opcode) : StackEffect :=
  if code ≤ i2d then ⟨[.int], [familyCategory (code - i2l + 1)]⟩
  else if code = l2i then ⟨[.long], [.int]⟩
  else if code ≤ l2d then ⟨[.long], [familyCategory (code - l2f + 2)]⟩
  else if code ≤ f2l then ⟨[.float], [familyCategory (code - f2i)]⟩
  else if code = f2d then ⟨[.float], [.double]⟩
  else if code ≤ d2f then ⟨[.double], [familyCategory (code - d2i)]⟩
  else ⟨[.int], [.int]⟩

/-- The effect of an instruction without operands.  Instructions that duplicate
or discard operands of any category are not covered here. -/
def effect? (code : Opcode) : Option StackEffect :=
  if code = 0 then some ⟨[], []⟩
  else if code = aconstNull then some ⟨[], [.reference]⟩
  else if code < lconst0 then some ⟨[], [.int]⟩
  else if code < fconst0 then some ⟨[], [.long]⟩
  else if code < dconst0 then some ⟨[], [.float]⟩
  else if code < bipush then some ⟨[], [.double]⟩
  else if iaload ≤ code && code < istore then
    some ⟨[.int, .reference], [familyCategory (code - iaload)]⟩
  else if iastore ≤ code && code < pop then
    some ⟨[familyCategory (code - iastore), .int, .reference], []⟩
  else if iadd ≤ code && code < ineg then
    let c := familyCategory ((code - iadd) % 4)
    some ⟨[c, c], [c]⟩
  else if ineg ≤ code && code < ishl then
    let c := familyCategory (code - ineg)
    some ⟨[c], [c]⟩
  else if ishl ≤ code && code < iand then
    let c := familyCategory ((code - ishl) % 2)
    some ⟨[.int, c], [c]⟩
  else if iand ≤ code && code ≤ ixor + 1 then
    let c := familyCategory ((code - iand) % 2)
    some ⟨[c, c], [c]⟩
  else if i2l ≤ code && code ≤ i2s then some code.conversionEffect
  else if code = lcmp then some ⟨[.long, .long], [.int]⟩
  else if code = fcmpl || code = fcmpg then some ⟨[.float, .float], [.int]⟩
  else if code = dcmpl || code = dcmpg then some ⟨[.double, .double], [.int]⟩
  else if ireturn ≤ code && code < returnVoid then some ⟨[familyCategory (code - ireturn)], []⟩
  else if code = returnVoid then some ⟨[], []⟩
  else if code = arraylength then some ⟨[.reference], [.int]⟩
  else if code = athrow then some ⟨[.reference], []⟩
  else none

/-- What a branch takes from the stack. -/
def branchTakes? (code : Opcode) : Option (List Category) :=
  if code = goto then some []
  else if ifeq ≤ code && code < ifIcmpeq then some [.int]
  else if ifIcmpeq ≤ code && code < ifAcmpeq then some [.int, .int]
  else if code = ifAcmpeq || code = ifAcmpne then some [.reference, .reference]
  else if code = ifnull || code = ifnonnull then some [.reference]
  else none

end Opcode

/-- The value of a field or of a call's result on the stack. -/
def Signature.leaves (sig : Signature) : List Category :=
  if sig.result.isVoid then [] else [sig.result.category]

/-- The effect of a field access or call.  A field has a value; no parameter is
`void`. -/
def MemberRef.effect? (code : Opcode) (ref : MemberRef) : Option StackEffect :=
  let value := ref.signature.result
  let args := (ref.signature.params.map JType.category).reverse
  if code = .getstatic then if value.isVoid then none else some ⟨[], [value.category]⟩
  else if code = .putstatic then if value.isVoid then none else some ⟨[value.category], []⟩
  else if code = .getfield then
    if value.isVoid then none else some ⟨[.reference], [value.category]⟩
  else if code = .putfield then
    if value.isVoid then none else some ⟨[value.category, .reference], []⟩
  else if ref.signature.params.any JType.isVoid then none
  else if code = .invokestatic then some ⟨args, ref.signature.leaves⟩
  else if code = .invokevirtual || code = .invokespecial || code = .invokeinterface then
    some ⟨args ++ [.reference], ref.signature.leaves⟩
  else none

namespace Instr

/-- The effect of an instruction on the stack, where the instruction fixes the
categories. -/
def effect? : Instr → Option StackEffect
  | .op code => code.effect?
  | .int code _ =>
      if code = .bipush || code = .sipush then some ⟨[], [.int]⟩
      else if code = .newarray then some ⟨[.int], [.reference]⟩
      else none
  | .type code _ =>
      if code = .newObject then some ⟨[], [.reference]⟩
      else if code = .anewarray then some ⟨[.int], [.reference]⟩
      else if code = .checkcast then some ⟨[.reference], [.reference]⟩
      else if code = .instanceof then some ⟨[.reference], [.int]⟩
      else none
  | .ldc value => some ⟨[], [value.type.category]⟩
  | .jump code _ => code.branchTakes?.map fun takes => ⟨takes, []⟩
  | .label _ => some ⟨[], []⟩
  | .var code _ =>
      if Opcode.iload ≤ code && code ≤ Opcode.aload then
        some ⟨[], [Opcode.familyCategory (code - Opcode.iload)]⟩
      else if Opcode.istore ≤ code && code ≤ Opcode.astore then
        some ⟨[Opcode.familyCategory (code - Opcode.istore)], []⟩
      else none
  | .member code ref => ref.effect? code

/-- The stack after an instruction, if it finds the operands it needs. -/
def after? (instr : Instr) (stack : List Category) : Option (List Category) :=
  if instr = .op .pop then
    match stack with
    | c :: rest => if c.isWide then none else some rest
    | [] => none
  else if instr = .op .pop2 then
    match stack with
    | c :: rest =>
        if c.isWide then some rest
        else if (rest.head?.any fun d => !d.isWide) then some (rest.drop 1)
        else none
    | [] => none
  else if instr = .op .dup then
    match stack with
    | c :: rest => if c.isWide then none else some (c :: c :: rest)
    | [] => none
  else
    instr.effect?.bind fun effect =>
      if effect.takes <+: stack then some (effect.leaves ++ stack.drop effect.takes.length)
      else none

theorem after?_append {instr : Instr} {takes leaves : List Category}
    (effect : instr.effect? = some ⟨takes, leaves⟩) (rest : List Category) :
    instr.after? (takes ++ rest) = some (leaves ++ rest) := by
  have notPop : instr ≠ .op .pop := by
    rintro rfl
    contradiction
  have notPop2 : instr ≠ .op .pop2 := by
    rintro rfl
    contradiction
  have notDup : instr ≠ .op .dup := by
    rintro rfl
    contradiction
  simp [after?, notPop, notPop2, notDup, effect]

/-- Whether control can continue with the next instruction. -/
def continues : Instr → Bool
  | .op code => !code.isTerminal
  | .jump code _ => code != .goto
  | _ => true

/-- The category of the value that a return instruction returns. -/
def returned? : Instr → Option Category
  | .op code =>
      if Opcode.ireturn ≤ code && code < Opcode.returnVoid then
        some (Opcode.familyCategory (code - Opcode.ireturn))
      else none
  | _ => none

/-- The instruction returns no value, or one of the category of `result`. -/
def returnsAs (result : JType) (instr : Instr) : Prop :=
  ∀ c, instr.returned? = some c → result.isVoid = false ∧ result.category = c

instance (result : JType) (instr : Instr) : Decidable (instr.returnsAs result) :=
  match h : instr.returned? with
  | none => isTrue fun _ found => absurd (h.symm.trans found) (by simp)
  | some c =>
      decidable_of_iff (result.isVoid = false ∧ result.category = c) <| by
        simp [returnsAs, h]

/-- A branch finds at its target the stack that it leaves. -/
def agreesAt (shapes : Label → Option (List Category)) (stack : List Category) : Instr → Prop
  | .jump _ target => shapes target = some stack
  | _ => True

instance (shapes : Label → Option (List Category)) (stack : List Category) (instr : Instr) :
    Decidable (instr.agreesAt shapes stack) :=
  match instr with
  | .jump _ target => inferInstanceAs (Decidable (shapes target = some stack))
  | .op _ | .int .. | .type .. | .ldc _ | .label _ | .var .. | .member .. => isTrue trivial

end Instr

/-! ## Instructions in order -/

section Flow

variable (result : JType) (shapes : Label → Option (List Category))

/-- The stack after an instruction that is entered with a stack, or after a
place that cannot be reached; `none` if something does not fit.  Only a label
may stand where control cannot be. -/
def flowStep (entry : Option (List Category)) (instr : Instr) : Option (Option (List Category)) :=
  match instr, entry with
  | .label position, none => some (shapes position)
  | .label position, some stack =>
      if shapes position = some stack then some (some stack) else none
  | _, none => none
  | instr, some stack =>
      (instr.after? stack).bind fun after =>
        if instr.returnsAs result ∧ instr.agreesAt shapes after then
          some (if instr.continues then some after else none)
        else none

/-- The stack after instructions that are entered with a stack. -/
def flow (entry : Option (List Category)) : List Instr → Option (Option (List Category))
  | [] => some entry
  | instr :: rest => (flowStep result shapes entry instr).bind fun after => flow after rest

variable {result shapes}

theorem flow_append (entry : Option (List Category)) (first second : List Instr) :
    flow result shapes entry (first ++ second) =
      (flow result shapes entry first).bind fun after => flow result shapes after second := by
  induction first generalizing entry with
  | nil => rfl
  | cons instr rest ih =>
      simp only [List.cons_append, flow, Option.bind_assoc]
      exact congrArg _ (funext ih)

theorem flow_trans {entry middle exit : Option (List Category)} {first second : List Instr}
    (left : flow result shapes entry first = some middle)
    (right : flow result shapes middle second = some exit) :
    flow result shapes entry (first ++ second) = some exit := by
  rw [flow_append, left, Option.bind_some, right]

end Flow

end JvmAssembler
