import JvmAssembler.Opcode
import JvmAssembler.Literal
import JvmAssembler.LocalRef
import JvmAssembler.Member

/-!
# Symbolic instructions

An instruction list names types, literals, members and labels directly.  A
label is a position in the list; it takes no space in the encoded code.
-/

namespace JvmAssembler

/-- A jump target. -/
structure Label where
  id : Nat
  deriving DecidableEq

def Label.text (label : Label) : String :=
  "L" ++ toString label.id

/-- One entry of an instruction list. -/
inductive Instr where
  /-- An instruction without operands. -/
  | op (code : Opcode)
  /-- `bipush`, `sipush` or `newarray`. -/
  | int (code : Opcode) (operand : Int32)
  /-- `new`, `checkcast`, `instanceof` or `anewarray`. -/
  | type (code : Opcode) (operand : JType)
  /-- Load of a constant from the pool. -/
  | ldc (value : Literal)
  | jump (code : Opcode) (target : Label)
  /-- The position of a label. -/
  | label (position : Label)
  /-- Load or store of a local. -/
  | var (code : Opcode) (slot : Slot)
  /-- Field access or call. -/
  | member (code : Opcode) (ref : MemberRef)
  deriving DecidableEq

namespace Instr

/-- The opcode; a label has none. -/
def opcode? : Instr → Option Opcode
  | .op code | .int code _ | .type code _ | .jump code _ | .var code _ | .member code _ =>
      some code
  | .ldc _ => some .ldc
  | .label _ => none

/-- The instruction as it is written in listings. -/
def text : Instr → String
  | .op code => code.mnemonic
  | .int code operand => code.mnemonic ++ " " ++ toString operand.toInt
  | .type code operand => code.mnemonic ++ " " ++ operand.text
  | .ldc value => "ldc " ++ value.text
  | .jump code target => code.mnemonic ++ " " ++ target.text
  | .label position => position.text ++ ":"
  | .var code slot => code.mnemonic ++ " " ++ toString slot.toNat
  | .member code ref => code.mnemonic ++ " " ++ ref.text

/-- The opcodes of an instruction list, labels skipped. -/
def opcodes (instrs : List Instr) : List Opcode :=
  instrs.filterMap opcode?

/-- Put a label's position into a list ordered by label, in place of an earlier
position of the same label. -/
def recordPosition (found : Label) (position : Nat) : List (Label × Nat) → List (Label × Nat)
  | [] => [(found, position)]
  | (other, known) :: rest =>
      if found.id < other.id then (found, position) :: (other, known) :: rest
      else if found = other then (found, position) :: rest
      else (other, known) :: recordPosition found position rest

/-- Where each label stands in an instruction list, ordered by label.  A label
that occurs more than once has its last position. -/
def labelPositions (instrs : List Instr) : List (Label × Nat) :=
  instrs.zipIdx.foldl
    (fun known (instr, position) =>
      match instr with
      | .label found => recordPosition found position known
      | _ => known)
    []

/-- One line per instruction, labels flush left. -/
def listing (instrs : List Instr) : String :=
  String.join (instrs.map fun instr =>
    match instr with
    | .label _ => instr.text ++ "\n"
    | _ => "    " ++ instr.text ++ "\n")

end Instr

end JvmAssembler
