import JvmAssembler.Error
import JvmAssembler.MemberTable.Basic

/-!
# Conversions between types

How a value of one type becomes a value of another.  A conversion is only a kind;
the instructions that perform it also depend on the two types.

Assignments, arguments and returns use the implicit conversions; a cast allows
every legal one.  Overload resolution distinguishes the strict conversions,
which neither box nor unbox.
-/

namespace JvmAssembler

/-- A way to convert a value. -/
inductive Conversion where
  | identity
  | wideningPrimitive
  /-- Between `short` and `char`, or from `byte` to `char`, taken as implicit
  and truncating to the target's range. -/
  | reinterpret
  | narrowingPrimitive
  | boxing
  /-- Boxing, then a widening of the wrapper. -/
  | boxingWidening
  | unboxing
  /-- Unboxing, then a widening of the primitive. -/
  | unboxingWidening
  /-- A check for the wrapper, then unboxing. -/
  | checkedUnboxing
  | wideningReference
  | narrowingReference
  | illegal
  deriving DecidableEq

namespace Conversion

/-- Allowed without a cast. -/
def isImplicit : Conversion → Bool
  | .identity | .wideningPrimitive | .reinterpret | .boxing | .boxingWidening | .unboxing
  | .unboxingWidening | .wideningReference => true
  | .narrowingPrimitive | .checkedUnboxing | .narrowingReference | .illegal => false

/-- Implicit and free of boxing. -/
def isStrict : Conversion → Bool
  | .identity | .wideningPrimitive | .reinterpret | .wideningReference => true
  | _ => false

/-! ## Classification -/

/-- Order of the numeric types by range. -/
def rank : Primitive → Nat
  | .boolean => 0
  | .byte => 1
  | .short | .char => 2
  | .int => 3
  | .long => 4
  | .float => 5
  | .double => 6

/-- The pairs that `reinterpret` converts between. -/
def isReinterpreted : Primitive → Primitive → Bool
  | .short, .char | .char, .short | .byte, .char => true
  | _, _ => false

/-- The conversion between primitive types; `narrow` allows `reinterpret`. -/
def ofPrimitives (narrow : Bool) (source target : Primitive) : Conversion :=
  if source = target then .identity
  else if source = .boolean ∨ target = .boolean then .illegal
  else if narrow && isReinterpreted source target then .reinterpret
  else if target ≠ .char ∧ rank source < rank target then .wideningPrimitive
  else .narrowingPrimitive

/-- The conversion from a reference to a primitive type. -/
def ofUnboxing (table : MemberTable) (source : JType) (target : Primitive) : Conversion :=
  let checked :=
    if table.isSubtype (.wrapperOf target) source then Conversion.checkedUnboxing else .illegal
  match source.unboxed? with
  | some p =>
      if p = target then .unboxing
      else
        match ofPrimitives false p target with
        | .wideningPrimitive => .unboxingWidening
        | _ => checked
  | none => checked

/-- The conversion from one type to another. -/
def classify (table : MemberTable) (narrow : Bool) (source target : JType) : Conversion :=
  if source = target then .identity
  else if source.isVoid || target.isVoid || target = .null then .illegal
  else
    match source, target with
    | .primitive p, .primitive q => ofPrimitives narrow p q
    | .primitive p, target =>
        if target = .wrapperOf p then .boxing
        else if table.isSubtype (.wrapperOf p) target then .boxingWidening
        else .illegal
    | .null, .primitive _ => .illegal
    | source, .primitive q => ofUnboxing table source q
    | source, target =>
        if table.isSubtype source target then .wideningReference else .narrowingReference

/-! ## Instructions -/

/-- The instruction between computational types, if they differ. -/
def computationalStep : Primitive → Primitive → Option Opcode
  | .int, .long => some .i2l
  | .int, .float => some .i2f
  | .int, .double => some .i2d
  | .long, .int => some .l2i
  | .long, .float => some .l2f
  | .long, .double => some .l2d
  | .float, .int => some .f2i
  | .float, .long => some .f2l
  | .float, .double => some .f2d
  | .double, .int => some .d2i
  | .double, .long => some .d2l
  | .double, .float => some .d2f
  | _, _ => none

/-- The instruction that truncates an `int` to a narrow type. -/
def truncation : Primitive → Option Opcode
  | .byte => some .i2b
  | .short => some .i2s
  | .char => some .i2c
  | _ => none

/-- Step to the target's computational type, then truncation to its range
unless every source value fits. -/
def primitiveInstrs (source target : Primitive) : List Instr :=
  let step := computationalStep source.computational target.computational
  let fits := source = target ∨ (source = .byte ∧ target = .short)
  let truncate := if fits then none else truncation target
  (step.toList ++ truncate.toList).map .op

/-- The call that boxes a primitive value. -/
def boxInstr (p : Primitive) : Instr :=
  .member .invokestatic (.method (.wrapperOf p) "valueOf" [.primitive p] (.wrapperOf p))

/-- The call that unboxes a wrapper. -/
def unboxInstr (p : Primitive) : Instr :=
  .member .invokevirtual (.method (.wrapperOf p) p.unboxMethod [] (.primitive p))

end Conversion

/-! ## Promotion -/

namespace JType

/-- The numeric type of a primitive or of a wrapper's value. -/
def numericOperand? (ty : JType) : Option Primitive :=
  (ty.asPrimitive? <|> ty.unboxed?).filter Primitive.isNumeric

/-- The type both operands of an arithmetic operator are converted to. -/
def binaryPromotion? (left right : JType) : Option Primitive :=
  match left.numericOperand?, right.numericOperand? with
  | some a, some b =>
      some (if a = .double ∨ b = .double then .double
        else if a = .float ∨ b = .float then .float
        else if a = .long ∨ b = .long then .long
        else .int)
  | _, _ => none

/-- The type a single operand is converted to. -/
def unaryPromotion? (ty : JType) : Option Primitive :=
  ty.numericOperand?.map Primitive.computational

/-- The type that both arms of a conditional agree on. -/
def common (table : MemberTable) (narrow : Bool) (thenType elseType : JType) :
    Except Error JType :=
  if thenType = elseType then .ok thenType
  else
    let forward := (Conversion.classify table narrow thenType elseType).isImplicit
    let backward := (Conversion.classify table narrow elseType thenType).isImplicit
    match forward, backward with
    | true, false => .ok elseType
    | false, true => .ok thenType
    | true, true =>
        if elseType.isPrimitive && !thenType.isPrimitive then .ok elseType else .ok thenType
    | false, false => .error (.incompatibleBranches thenType elseType)

end JType

end JvmAssembler
