/-!
# Bytes as hexadecimal text
-/

namespace JvmAssembler.Text

/-- The two hexadecimal digits of a byte, in lower case. -/
def hexDigits (byte : UInt8) : List Char :=
  [Nat.digitChar (byte.toNat / 16), Nat.digitChar (byte.toNat % 16)]

/-- The digits of bytes, with a separator between bytes. -/
def hex (separator : String) (bytes : List UInt8) : String :=
  separator.intercalate (bytes.map fun byte => String.ofList (hexDigits byte))

end JvmAssembler.Text
