import JvmAssembler.Text.Invisible

/-!
# Quoted text

String literals appear in listings between double quotes.  Quotes, backslashes
and the common control characters are escaped by a letter, other invisible
characters by their number.
-/

namespace JvmAssembler.Text

/-- The characters that stand for `c` between quotes. -/
def escape (c : Char) : List Char :=
  match c with
  | '\x00' => ['\\', '0']
  | '\t' => ['\\', 't']
  | '\n' => ['\\', 'n']
  | '\r' => ['\\', 'r']
  | '\"' => ['\\', '\"']
  | '\\' => ['\\', '\\']
  | c =>
      if isInvisible c then
        ['\\', 'u', '\x7b'] ++ Nat.toDigits 16 c.toNat ++ ['\x7d']
      else [c]

/-- The text between quotes. -/
def quote (text : String) : String :=
  String.ofList ('\"' :: text.toList.flatMap escape ++ ['\"'])

end JvmAssembler.Text
