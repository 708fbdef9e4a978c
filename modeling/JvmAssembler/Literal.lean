import JvmAssembler.Type.Basic
import JvmAssembler.Number.Shortest
import JvmAssembler.Text.Quoted

/-!
# Literals
-/

namespace JvmAssembler

/-- A constant that an instruction can load.  Floating-point constants are
carried by their bits. -/
inductive Literal where
  | int (value : Int32)
  | long (value : Int64)
  | float (value : Binary32)
  | double (value : Binary64)
  | string (value : String)
  deriving DecidableEq

namespace Literal

/-- The type of the constant. -/
def type : Literal → JType
  | .int _ => .int
  | .long _ => .long
  | .float _ => .float
  | .double _ => .double
  | .string _ => .string

/-- The constant as it is written in listings. -/
def text : Literal → String
  | .int value => toString value.toInt
  | .long value => toString value.toInt ++ "L"
  | .float value => value.value.text ++ "f"
  | .double value => value.value.text ++ "d"
  | .string value => Text.quote value

/-- Equality that compares floating-point constants as numbers. -/
def numericEq : Literal → Literal → Bool
  | .int a, .int b => a == b
  | .long a, .long b => a == b
  | .float a, .float b => a.numericEq b
  | .double a, .double b => a.numericEq b
  | .string a, .string b => a == b
  | _, _ => false

end Literal

end JvmAssembler
