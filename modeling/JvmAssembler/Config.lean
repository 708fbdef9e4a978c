import JvmAssembler.Error
import JvmAssembler.Text.Blank

/-!
# Configuration

Switches that shape how a method body is assembled, and how they are read from
named settings.
-/

namespace JvmAssembler

/-- Switches of the assembler. -/
structure Config where
  /-- Log every emitted instruction. -/
  debugCode : Bool := false
  /-- Allow the implicit conversions between `short` and `char` and from
  `byte` to `char`. -/
  narrowReinterpretation : Bool := true
  /-- End a `void` body that falls off its end with a return. -/
  implicitVoidReturn : Bool := true
  /-- Upper bound on the encoded length in bytes. -/
  maxCodeLength : Nat := 65535
  deriving DecidableEq

namespace Config

/-- The class-file format allows at most this many bytes of code. -/
def codeLengthLimit : Nat := 65535

def debugCodeName : String := "JFLUENT_DEBUG_CODE"
def narrowReinterpretationName : String := "JFLUENT_NARROW_REINTERPRET"
def implicitVoidReturnName : String := "JFLUENT_IMPLICIT_RETURN"
def maxCodeLengthName : String := "JFLUENT_MAX_CODE_LENGTH"

/-- The same configuration with another bound, at most the format's limit. -/
def withMaxCodeLength (config : Config) (limit : Nat) : Config :=
  { config with maxCodeLength := min limit codeLengthLimit }

/-- Read a switch; blanks around the word and the case of its letters do not
matter. -/
def parseFlag (setting value : String) : Except Error Bool :=
  let word := String.ofList ((Text.trim value).toList.map Char.toLower)
  if word ∈ ["1", "true", "yes", "on"] then .ok true
  else if word ∈ ["0", "false", "no", "off", ""] then .ok false
  else .error (.invalidInput (.notFlag setting word))

/-- Value of a non-empty run of decimal digits. -/
def digitsValue? (digits : List Char) : Option Nat :=
  if digits.isEmpty || !digits.all Char.isDigit then none
  else some (digits.foldl (fun value c => 10 * value + (c.toNat - '0'.toNat)) 0)

/-- Read a code length: a number between one and the format's limit, which a
plus sign may precede. -/
def parseCodeLength (value : String) : Except Error Nat :=
  let text := Text.trim value
  let count := match text.toList with
    | '+' :: digits => digitsValue? digits
    | digits => digitsValue? digits
  match count with
  | some n =>
      if 1 ≤ n && n ≤ codeLengthLimit then .ok n
      else .error (.invalidInput (.notLength maxCodeLengthName codeLengthLimit text))
  | none => .error (.invalidInput (.notLength maxCodeLengthName codeLengthLimit text))

/-- Read one setting, or keep the present value if it is absent. -/
def overrideWith {α : Type} (value? : Option String) (parse : String → Except Error α)
    (present : α) : Except Error α :=
  match value? with
  | some value => parse value
  | none => .ok present

/-- The default configuration overridden by the settings that `lookup` finds.
The first setting that cannot be read is reported. -/
def ofLookup (lookup : String → Option String) : Except Error Config := do
  let base : Config := {}
  let debugCode ←
    overrideWith (lookup debugCodeName) (parseFlag debugCodeName) base.debugCode
  let narrowReinterpretation ←
    overrideWith (lookup narrowReinterpretationName) (parseFlag narrowReinterpretationName)
      base.narrowReinterpretation
  let implicitVoidReturn ←
    overrideWith (lookup implicitVoidReturnName) (parseFlag implicitVoidReturnName)
      base.implicitVoidReturn
  let maxCodeLength ←
    overrideWith (lookup maxCodeLengthName) parseCodeLength base.maxCodeLength
  return { debugCode, narrowReinterpretation, implicitVoidReturn, maxCodeLength }

end Config

end JvmAssembler
