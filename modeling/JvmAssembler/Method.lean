import JvmAssembler.Bytecode
import JvmAssembler.Generate.Body

/-!
# Methods

Assembling a method binds its parameters, generates its body and closes it with
a return where the body may fall off its end.  An assembled method can be
encoded once its class has a name.
-/

namespace JvmAssembler

/-- A method to assemble. -/
structure MethodSpec where
  name : String
  access : Access := .publicFlag
  params : List (String × JType) := []
  result : JType
  throws : List JType := []
  body : Fragment := []

namespace MethodSpec

def isStatic (spec : MethodSpec) : Bool :=
  spec.access.isStatic

def signature (spec : MethodSpec) : Signature :=
  ⟨spec.params.map (·.2), spec.result⟩

/-- The method's descriptor in the class `this`. -/
def descriptor (this : ClassHandle) (spec : MethodSpec) : Except Error String :=
  spec.signature.descriptor this

/-- What generation may consult while it generates the method. -/
def context (spec : MethodSpec) (cls : ClassContext) : Context :=
  { cls with isStatic := spec.isStatic, result := spec.result }

end MethodSpec

/-- Greatest stack depth and number of local slots of a method. -/
structure Limits where
  maxStack : UInt16
  maxLocals : Nat
  deriving DecidableEq

namespace Gen

/-- Add a line to the log. -/
def note (line : LogLine) : Gen Unit := fun s =>
  .ok () { s with log := s.log.push line }

/-- Allocate the slots of parameters. -/
def bindParams : List (String × JType) → Gen Unit
  | [] => pure ()
  | (name, ty) :: rest => do
      let _ ← onFrame (Frame.addLocal (some name) ty)
      bindParams rest

/-- Close a body that may fall off its end. -/
def close (ctx : Context) (spec : MethodSpec) : Gen Unit := do
  if !spec.result.isVoid || !ctx.config.implicitVoidReturn then
    throw (.invalidInput (.missingReturn spec.name))
  let left := (← get).frame.size
  if left ≠ 0 then throw (.internal (.valuesLeft left spec.name))
  emitOp ctx .returnVoid

/-- Generate a method from the start. -/
def method (ctx : Context) (spec : MethodSpec) : Gen Limits := do
  note (.assembling spec.name spec.signature)
  if !spec.isStatic then bindParams [("this", .self)]
  bindParams spec.params
  spec.body.code ctx []
  whenAlive (close ctx spec)
  let frame := (← get).frame
  note (.assembled spec.name frame.maxStack frame.maxLocals)
  return ⟨frame.maxStack, frame.maxLocals⟩

end Gen

/-- An assembled method, ready to be encoded. -/
structure AssembledMethod where
  name : String
  access : Access
  signature : Signature
  throws : List JType
  instrs : List Instr
  maxStack : UInt16
  maxLocals : Nat
  maxCodeLength : Nat
  deriving DecidableEq

namespace AssembledMethod

/-- The method's descriptor in the class `this`. -/
def descriptor (this : ClassHandle) (method : AssembledMethod) : Except Error String :=
  method.signature.descriptor this

/-- Encode the instructions, adding their constants to the pool. -/
def encode (this : ClassHandle) (method : AssembledMethod) : PoolOp (List UInt8) :=
  Bytecode.encode this method.maxCodeLength method.instrs

end AssembledMethod

namespace MethodSpec

/-- Generate the method into the given output. -/
def run (spec : MethodSpec) (ctx : Context) (output : Output) : EStateM.Result Error State Limits :=
  Gen.method ctx spec { output }

/-- The assembled method with these instructions and limits. -/
def assembled (spec : MethodSpec) (cls : ClassContext) (instrs : List Instr) (limits : Limits) :
    AssembledMethod where
  name := spec.name
  access := spec.access
  signature := spec.signature
  throws := spec.throws
  instrs := instrs
  maxStack := limits.maxStack
  maxLocals := limits.maxLocals
  maxCodeLength := cls.config.maxCodeLength

/-- Assemble the method in a class. -/
def assemble (spec : MethodSpec) (cls : ClassContext) : Except Error AssembledMethod :=
  match spec.run (spec.context cls) {} with
  | .ok limits s => .ok (spec.assembled cls s.output.instrs.toList limits)
  | .error error _ => .error error

end MethodSpec

end JvmAssembler
