import JvmAssembler.Instr
import JvmAssembler.Operator

/-!
# Errors

Every way in which describing, generating or encoding a method can fail.  An
error carries the types, names and numbers it is about; `Error.message` is the
only place where they become text.

Errors are of two kinds.  Those of kind `internal` mean that an invariant of
the assembler does not hold; all others are mistakes in the input.
-/

namespace JvmAssembler

/-- A member used in a static way but not static, or the other way round. -/
inductive StaticMismatch where
  | selfInStatic
  | superInStatic
  | instanceField (field : Member)
  | staticField (field : Member)
  | instanceMethod (method : Member)
  | staticMethod (method : Member)
  deriving DecidableEq

/-- What a value was meant to be the receiver of. -/
inductive ReceiverUse where
  | field (name : String)
  | call (name : String)
  deriving DecidableEq

/-- Mistakes in the input that have no error of their own. -/
inductive InputFault where
  | alreadyNamed (name : String)
  | voidParameter
  | tooManyLocals
  | localCannotHold (type : JType)
  | unreachable (operation : String)
  | notNegatable (type : JType)
  | notReferenceTest (value target : JType)
  | valueFromVoidMethod
  | missingReturnValue (type : JType)
  | notThrowable (type : JType)
  | malformed (reason : String)
  | notIncrementable (target : LocalRef) (type : JType)
  | noReceiver (use : ReceiverUse) (type : JType)
  | notInstantiable (type : JType)
  | noArrayOf (elem : JType)
  | notArray (type : JType)
  | notApplicable (op : ArithOp) (left right : JType)
  | notOnBoolean (op : RelOp)
  | notComparable (op : RelOp) (left right : JType)
  | missingReturn (method : String)
  | poolOverflow
  | tooManyArguments (ref : MemberRef)
  | notFlag (setting text : String)
  | notLength (setting : String) (limit : Nat) (text : String)
  | noSample (name : String)
  deriving DecidableEq

/-- Broken invariants of the assembler. -/
inductive InternalFault where
  | cannotNegate (op : Opcode)
  | nullDescriptor
  | noClassConstant (type : JType)
  | notPrimitive (type : JType)
  | notWrapper (type : JType)
  | voidPushed
  | popEmpty
  | popMissing (wanted held : Nat)
  | peekEmpty
  | slotNotAllocated (slot : Slot)
  | noOpenScope
  | stackMismatch (label : Label) (expected found : List JType)
  | notOneValue (pushed : Int)
  | valuesLeft (count : Nat) (method : String)
  | unplacedLabel (label : Label)
  | operandOutOfRange (op : Opcode) (operand : Int32)
  | badArrayType (operand : Int32)
  | noImmediate (op : Opcode)
  | notLocalOp (op : Opcode)
  deriving DecidableEq

/-- Why an assembler operation failed. -/
inductive Error where
  | noConversion (source target : JType)
  | illegalCast (source target : JType)
  | nullComparedToPrimitive (type : JType)
  | unresolvedLocal (name : String)
  | unresolvedMember (owner : JType) (name : String) (args : List JType)
  | inaccessible (member : Member) (accessor : String)
  | staticMismatch (cause : StaticMismatch)
  | incompatibleBranches (thenType elseType : JType)
  | unresolvedSelf
  | invalidDescriptor (descriptor : String)
  | branchTooFar (offset : Int)
  | codeTooLarge (size : Nat)
  | invalidInput (fault : InputFault)
  | internal (fault : InternalFault)
  deriving DecidableEq

def StaticMismatch.message : StaticMismatch → String
  | .selfInStatic => "\x60this\x60 referenced in a static method"
  | .superInStatic => "super constructor call in a static method"
  | .instanceField field => field.text ++ " is an instance field"
  | .staticField field => "static field " ++ field.text ++ " accessed through an instance"
  | .instanceMethod method => method.text ++ " is an instance method"
  | .staticMethod method => "static method " ++ method.text ++ " invoked through an instance"

def ReceiverUse.text : ReceiverUse → String
  | .field name => "field access ." ++ name
  | .call name => "call to " ++ name

def InputFault.message : InputFault → String
  | .alreadyNamed name => "class under construction already named " ++ name
  | .voidParameter => "void is not a parameter type"
  | .tooManyLocals => "too many local variables"
  | .localCannotHold type => "a local cannot hold " ++ type.text
  | .unreachable operation => "unreachable code: " ++ operation
  | .notNegatable type => "cannot negate a value of type " ++ type.text
  | .notReferenceTest value target =>
      value.text ++ " instanceof " ++ target.text ++ " is not a reference test"
  | .valueFromVoidMethod => "return with a value from a void method"
  | .missingReturnValue type => "missing return value of type " ++ type.text
  | .notThrowable type => "cannot throw a value of type " ++ type.text
  | .malformed reason => reason
  | .notIncrementable target type =>
      "cannot increment " ++ target.text ++ " of type " ++ type.text
  | .noReceiver use type => use.text ++ " on a value of type " ++ type.text
  | .notInstantiable type => "cannot instantiate " ++ type.text
  | .noArrayOf elem => "no arrays of " ++ elem.text
  | .notArray type => type.text ++ " is not an array"
  | .notApplicable op left right =>
      "operator " ++ op.symbol ++ " is not applicable to " ++ left.text ++ " and " ++ right.text
  | .notOnBoolean op => "operator " ++ op.symbol ++ " is not defined on boolean"
  | .notComparable op left right =>
      "operator " ++ op.symbol ++ " is not defined on " ++ left.text ++ " and " ++ right.text
  | .missingReturn method => "missing return in " ++ method
  | .poolOverflow => "constant pool overflow"
  | .tooManyArguments ref => "too many arguments for " ++ ref.text
  | .notFlag setting text => setting ++ ": expected a boolean, got '" ++ text ++ "'"
  | .notLength setting limit text =>
      setting ++ ": expected a byte count in 1..=" ++ toString limit ++ ", got '" ++ text ++ "'"
  | .noSample name => "no sample named '" ++ name ++ "'"

def InternalFault.message : InternalFault → String
  | .cannotNegate op => "cannot negate opcode " ++ op.mnemonic
  | .nullDescriptor => "the null type has no descriptor"
  | .noClassConstant type => type.text ++ " has no class constant"
  | .notPrimitive type => type.text ++ " is not primitive"
  | .notWrapper type => type.text ++ " is not a wrapper"
  | .voidPushed => "pushed a void value"
  | .popEmpty => "pop from an empty operand stack"
  | .popMissing wanted held =>
      "pop of " ++ toString wanted ++ " values from an operand stack holding " ++ toString held
  | .peekEmpty => "peek at an empty operand stack"
  | .slotNotAllocated slot => "local slot " ++ toString slot.toNat ++ " is not allocated"
  | .noOpenScope => "end_scope without an open scope"
  | .stackMismatch label expected found =>
      "operand stack mismatch at " ++ label.text ++ ": expected [" ++
        JType.textList ", " expected ++ "], found [" ++ JType.textList ", " found ++ "]"
  | .notOneValue pushed =>
      "fragment expected to push exactly one value pushed " ++ toString pushed
  | .valuesLeft count method =>
      toString count ++ " values left on the stack at the end of " ++ method
  | .unplacedLabel label => "jump to unplaced label " ++ label.text
  | .operandOutOfRange op operand =>
      op.mnemonic ++ " operand " ++ toString operand.toInt ++ " out of range"
  | .badArrayType operand => "bad newarray type " ++ toString operand.toInt
  | .noImmediate op => op.mnemonic ++ " takes no immediate"
  | .notLocalOp op => op.mnemonic ++ " is not a local variable op"

namespace Error

/-- The error as it is reported. -/
def message : Error → String
  | .noConversion source target =>
      "no legal conversion from " ++ source.text ++ " to " ++ target.text
  | .illegalCast source target =>
      "illegal cast from " ++ source.text ++ " to " ++ target.text
  | .nullComparedToPrimitive type => "cannot compare primitive to null (" ++ type.text ++ ")"
  | .unresolvedLocal name => "unresolved local: " ++ name
  | .unresolvedMember owner name args =>
      "unresolved member " ++ owner.text ++ "." ++ name ++ "(" ++ JType.textList ", " args ++ ")"
  | .inaccessible member accessor => member.text ++ " is not accessible from " ++ accessor
  | .staticMismatch cause => "static/instance mismatch: " ++ cause.message
  | .incompatibleBranches thenType elseType =>
      "incompatible conditional branch types: " ++ thenType.text ++ " and " ++ elseType.text
  | .unresolvedSelf => "self type referenced before the class under construction was named"
  | .invalidDescriptor descriptor => "invalid descriptor: " ++ descriptor
  | .branchTooFar offset => "branch target too far: " ++ toString offset
  | .codeTooLarge size => "method code too large: " ++ toString size ++ " bytes"
  | .invalidInput fault => "invalid input: " ++ fault.message
  | .internal fault => "internal invariant violated: " ++ fault.message

/-- Whether the error means a broken invariant rather than a mistake in the
input. -/
def isInternal : Error → Bool
  | .internal _ => true
  | _ => false

end Error

/-- The conditional branch taken exactly when `op` is not. -/
def Opcode.negate (op : Opcode) : Except Error Opcode :=
  match op.negate? with
  | some negated => .ok negated
  | none => .error (.internal (.cannotNegate op))

end JvmAssembler
