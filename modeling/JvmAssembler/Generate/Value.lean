import JvmAssembler.Body
import JvmAssembler.Generate.Convert

/-!
# Generating operations without control flow

One action per operation.  Fragments inside an operation are given as the
actions that generate them; those whose type decides what to do are given as
operands, because they are probed first.
-/

namespace JvmAssembler.Gen

/-! ## Constants -/

/-- The shortest instruction that loads a constant. -/
def constantInstr : Literal → Instr
  | .int value =>
      let n := value.toInt
      if -1 ≤ n ∧ n ≤ 5 then .op (Opcode.iconst0 + value.toInt8.toUInt8)
      else if -128 ≤ n ∧ n ≤ 127 then .int .bipush value
      else if -32768 ≤ n ∧ n ≤ 32767 then .int .sipush value
      else .ldc (.int value)
  | .long value =>
      if value = 0 then .op .lconst0
      else if value = 1 then .op (Opcode.lconst0 + 1)
      else .ldc (.long value)
  | .float value =>
      match value.compactIndex? with
      | some index => .op (Opcode.fconst0 + index)
      | none => .ldc (.float value)
  | .double value =>
      match value.compactIndex? with
      | some index => .op (Opcode.dconst0 + index)
      | none => .ldc (.double value)
  | .string value => .ldc (.string value)

/-- Load a constant. -/
def constant (ctx : Context) (literal : Literal) : Gen Unit := do
  emit ctx (constantInstr literal)
  push literal.type

/-- Write an operand-less instruction that pushes a value. -/
def source (ctx : Context) (code : Opcode) (ty : JType) : Gen Unit := do
  emitOp ctx code
  push ty

/-- Load a boolean constant. -/
def boolean (ctx : Context) (value : Bool) : Gen Unit :=
  source ctx (if value then .iconst1 else .iconst0) .boolean

/-- Load the receiver of the method. -/
def receiverLoad (ctx : Context) : Gen Unit := do
  if ctx.isStatic then throw (.staticMismatch .selfInStatic)
  emit ctx (.var .aload 0)
  push .self

/-! ## Local variables -/

/-- The slot a reference means. -/
def slotOf : LocalRef → Gen Slot
  | .named name => onFrame (Frame.resolveIndex name)
  | .slot index => pure index

/-- Load a slot that holds a value of type `ty`. -/
def loadSlot (ctx : Context) (slot : Slot) (ty : JType) : Gen Unit := do
  emit ctx (.var (.loadOf ty) slot)
  push ty

/-- Pop the top into a slot. -/
def storeSlot (ctx : Context) (slot : Slot) : Gen Unit := do
  let ty ← pop
  emit ctx (.var (.storeOf ty) slot)

def load (ctx : Context) (ref : LocalRef) : Gen Unit := do
  let slot ← slotOf ref
  let ty ← onFrame (Frame.localType slot)
  loadSlot ctx slot ty

/-- The slot to store to and the type it was declared with; a raw slot may have
none. -/
def storeTarget : LocalRef → Gen (Slot × Option JType)
  | .named name => do
      let slot ← onFrame (Frame.resolveIndex name)
      let ty ← onFrame (Frame.localType slot)
      return (slot, some ty)
  | .slot index => fun s => .ok (index, s.frame.slotType? index.toNat) s

def store (ctx : Context) (target : LocalRef) (init : Gen Unit) : Gen Unit := do
  let (slot, declared) ← storeTarget target
  let ty ← value init
  match declared with
  | some declared => coerceTop ctx declared
  | none => onFrame (Frame.setLocal slot ty)
  storeSlot ctx slot

/-- Declare a variable and store its first value. -/
def declare (ctx : Context) (name : String) (ty : JType) (init : Gen Unit) : Gen Unit := do
  let _ ← value init
  coerceTop ctx ty
  let slot ← onFrame (Frame.addLocal (some name) ty)
  storeSlot ctx slot

def declareUninit (name : String) (ty : JType) : Gen Unit := do
  let _ ← onFrame (Frame.addLocal (some name) ty)

/-- The number `step` as a constant of a computational type. -/
def stepLiteral (step : Int32) : Primitive → Literal
  | .long => .long step.toInt64
  | .float => .float (.ofInt step.toInt)
  | .double => .double (.ofInt step.toInt)
  | _ => .int step

/-- Add a constant to a numeric variable. -/
def increment (ctx : Context) (target : LocalRef) (step : Int32) : Gen Unit := do
  let slot ← slotOf target
  let ty ← onFrame (Frame.localType slot)
  match ty.asPrimitive?.filter Primitive.isNumeric with
  | none => throw (.invalidInput (.notIncrementable target ty))
  | some p =>
      let computed := p.computational
      loadSlot ctx slot ty
      constant ctx (stepLiteral step computed)
      let _ ← popN 2
      emitOp ctx (Opcode.iadd + computed.typecode)
      push (.primitive computed)
      castTop ctx ty
      storeSlot ctx slot

/-! ## Members -/

/-- Fail unless the class under construction may use the member. -/
def checkAccess (ctx : Context) (member : Member) : Gen Unit :=
  if ctx.table.isAccessible .self member.owner member.access then pure ()
  else throw (.inaccessible member ctx.this.text)

def resolveField (ctx : Context) (owner : JType) (name : String) : Gen Member := do
  match ctx.table.resolveField owner name with
  | none => throw (.unresolvedMember owner name [])
  | some field =>
      checkAccess ctx field
      return field

def resolveMethod (ctx : Context) (owner : JType) (name : String) (args : List JType)
    (isConstructor : Bool) : Gen Member := do
  match ctx.table.resolve owner name args isConstructor with
  | none => throw (.unresolvedMember owner name args)
  | some method =>
      checkAccess ctx method
      return method

def staticField (ctx : Context) (owner : JType) (name : String) : Gen Member := do
  let field ← resolveField ctx owner name
  if field.isStatic then return field
  else throw (.staticMismatch (.instanceField field))

/-- The type of the receiver on top, which must be a reference other than
`null`. -/
def receiver (use : ReceiverUse) : Gen JType := do
  let ty ← peek
  if !ty.isReference || ty = .null then throw (.invalidInput (.noReceiver use ty))
  return ty

def instanceField (ctx : Context) (name : String) : Gen Member := do
  let owner ← receiver (.field name)
  let field ← resolveField ctx owner name
  if field.isStatic then throw (.staticMismatch (.staticField field))
  else return field

def getStatic (ctx : Context) (owner : JType) (name : String) : Gen Unit := do
  let field ← staticField ctx owner name
  emit ctx (.member .getstatic field.ref)
  push field.valueType

def putStatic (ctx : Context) (owner : JType) (name : String) (code : Gen Unit) : Gen Unit := do
  let field ← staticField ctx owner name
  let _ ← value code
  coerceTop ctx field.valueType
  let _ ← pop
  emit ctx (.member .putstatic field.ref)

def getField (ctx : Context) (name : String) : Gen Unit := do
  let field ← instanceField ctx name
  let _ ← pop
  emit ctx (.member .getfield field.ref)
  push field.valueType

def putField (ctx : Context) (name : String) (code : Gen Unit) : Gen Unit := do
  let field ← instanceField ctx name
  let _ ← value code
  coerceTop ctx field.valueType
  let _ ← popN 2
  emit ctx (.member .putfield field.ref)

/-! ## Calls -/

/-- The types of the arguments. -/
def probeAll (ctx : Context) : List Operand → Gen (List JType)
  | [] => pure []
  | arg :: rest => do
      let ty ← probe ctx arg
      let types ← probeAll ctx rest
      return ty :: types

/-- Generate the arguments, each converted to its parameter's type. -/
def arguments (ctx : Context) : List Operand → List JType → Gen Unit
  | arg :: args, param :: params => do
      let _ ← value arg.code
      coerceTop ctx param
      arguments ctx args params
  | _, _ => pure ()

/-- Consume the receiver, if any, and the arguments, write the call and push
its result. -/
def finishCall (ctx : Context) (code : Opcode) (method : Member) (hasReceiver : Bool) :
    Gen Unit := do
  let _ ← popN (method.params.length + if hasReceiver then 1 else 0)
  emit ctx (.member code method.ref)
  if !method.valueType.isVoid then push method.valueType

/-- The opcode of a call on an instance. -/
def invokeOpcode (method : Member) : Opcode :=
  if method.ownerIsInterface then .invokeinterface
  else if method.access.isPrivate && method.owner = .self then .invokespecial
  else .invokevirtual

def invoke (ctx : Context) (name : String) (args : List Operand) : Gen Unit := do
  let owner ← receiver (.call name)
  let argTypes ← probeAll ctx args
  let method ← resolveMethod ctx owner name argTypes false
  if method.isStatic then throw (.staticMismatch (.staticMethod method))
  arguments ctx args method.params
  finishCall ctx (invokeOpcode method) method true

def invokeStatic (ctx : Context) (owner : JType) (name : String) (args : List Operand) :
    Gen Unit := do
  let argTypes ← probeAll ctx args
  let method ← resolveMethod ctx owner name argTypes false
  if !method.isStatic then throw (.staticMismatch (.instanceMethod method))
  arguments ctx args method.params
  finishCall ctx .invokestatic method false

/-- Whether instances of the type can be created. -/
def isInstantiable : JType → Bool
  | .cls _ | .self => true
  | _ => false

/-- Create an object and run a constructor on it. -/
def construct (ctx : Context) (ty : JType) (args : List Operand) : Gen Unit := do
  if !isInstantiable ty then throw (.invalidInput (.notInstantiable ty))
  let argTypes ← probeAll ctx args
  let ctor ← resolveMethod ctx ty constructorName argTypes true
  emit ctx (.type .newObject ty)
  push ty
  emitOp ctx .dup
  push ty
  arguments ctx args ctor.params
  finishCall ctx .invokespecial ctor true

/-- Run a constructor of the superclass on the receiver of the method. -/
def superInit (ctx : Context) (args : List Operand) : Gen Unit := do
  if ctx.isStatic then throw (.staticMismatch .superInStatic)
  let argTypes ← probeAll ctx args
  let ctor ← resolveMethod ctx ctx.this.superclass constructorName argTypes true
  emit ctx (.var .aload 0)
  push .self
  arguments ctx args ctor.params
  finishCall ctx .invokespecial ctor true

/-! ## Arrays -/

def newArray (ctx : Context) (elem : JType) (length : Gen Unit) : Gen Unit := do
  if elem.isVoid || elem = .null then throw (.invalidInput (.noArrayOf elem))
  let _ ← value length
  coerceTop ctx .int
  let _ ← pop
  match elem with
  | .primitive p => emit ctx (.int .newarray p.arrayCode)
  | elem => emit ctx (.type .anewarray elem)
  push (.array elem)

/-- The element type of the array on top. -/
def arrayElement : Gen JType := do
  let ty ← peek
  match ty.element? with
  | some elem => return elem
  | none => throw (.invalidInput (.notArray ty))

def arrayLoad (ctx : Context) (index : Gen Unit) : Gen Unit := do
  let elem ← arrayElement
  let _ ← value index
  coerceTop ctx .int
  let _ ← popN 2
  emitOp ctx (.arrayLoadOf elem)
  push elem

def arrayStore (ctx : Context) (index code : Gen Unit) : Gen Unit := do
  let elem ← arrayElement
  let _ ← value index
  coerceTop ctx .int
  let _ ← value code
  coerceTop ctx elem
  let _ ← popN 3
  emitOp ctx (.arrayStoreOf elem)

def arrayLength (ctx : Context) : Gen Unit := do
  let _ ← arrayElement
  let _ ← pop
  emitOp ctx .arraylength
  push .int

/-! ## Arithmetic -/

/-- Convert the top to `left`, generate the right operand and convert it to
`right`. -/
def operands (ctx : Context) (left : JType) (code : Gen Unit) (right : JType) : Gen Unit := do
  coerceTop ctx left
  let _ ← value code
  coerceTop ctx right

/-- The types that the two operands of an operator are converted to; the first
is also the type of the result. -/
def operandTypes? (op : ArithOp) (left right : JType) : Option (JType × JType) :=
  if op.isShift then
    (left.unaryPromotion?.filter Primitive.isIntegral).map fun p => (.primitive p, .int)
  else if op.isBitwise && left.isBooleanLike && right.isBooleanLike then
    some (.boolean, .boolean)
  else
    ((JType.binaryPromotion? left right).filter fun p => !op.isBitwise || p.isIntegral).map
      fun p => (.primitive p, .primitive p)

/-- Apply a binary operator to the value on top and a right operand. -/
def arith (ctx : Context) (op : ArithOp) (right : Operand) : Gen Unit := do
  let leftType ← peek
  let rightType ← probe ctx right
  match operandTypes? op leftType rightType with
  | none => throw (.invalidInput (.notApplicable op leftType rightType))
  | some (result, converted) =>
      operands ctx result right.code converted
      let _ ← popN 2
      emitOp ctx (op.baseOpcode + Opcode.truncate result.typecode)
      push result

def negate (ctx : Context) : Gen Unit := do
  let ty ← peek
  match ty.unaryPromotion? with
  | none => throw (.invalidInput (.notNegatable ty))
  | some p =>
      coerceTop ctx (.primitive p)
      emitOp ctx (Opcode.ineg + p.typecode)

/-! ## Other operations on the top -/

def instanceOf (ctx : Context) (ty : JType) : Gen Unit := do
  let top ← peek
  if !top.isReference || !ty.isReference || ty = .null then
    throw (.invalidInput (.notReferenceTest top ty))
  let _ ← pop
  emit ctx (.type .instanceof ty)
  push .boolean

/-- Discard the top. -/
def discard (ctx : Context) : Gen Unit := do
  let ty ← pop
  emitOp ctx (if ty.isWide then .pop2 else .pop)

/-- Return the top. -/
def returnValue (ctx : Context) : Gen Unit := do
  if ctx.result.isVoid then throw (.invalidInput .valueFromVoidMethod)
  coerceTop ctx ctx.result
  let _ ← pop
  emitOp ctx (.returnOf ctx.result)

def returnVoid (ctx : Context) : Gen Unit := do
  if !ctx.result.isVoid then throw (.invalidInput (.missingReturnValue ctx.result))
  emitOp ctx .returnVoid

/-- Throw the top, which must be a `Throwable`. -/
def raise (ctx : Context) : Gen Unit := do
  let ty ← peek
  if !ctx.table.isSubtype ty (.named "java.lang.Throwable") then
    throw (.invalidInput (.notThrowable ty))
  let _ ← pop
  emitOp ctx .athrow

end JvmAssembler.Gen
