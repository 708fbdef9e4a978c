import JvmAssembler.Opcode

/-!
# Arithmetic and relational operators

Operators carry their symbol and the first opcode of their instruction family;
the typed variants follow at the type's code.
-/

namespace JvmAssembler

/-- Binary arithmetic operators. -/
inductive ArithOp where
  | add
  | sub
  | mul
  | div
  | rem
  | and
  | or
  | xor
  | shl
  | shr
  | ushr
  deriving DecidableEq

namespace ArithOp

/-- All operators, in declaration order. -/
def all : List ArithOp :=
  [.add, .sub, .mul, .div, .rem, .and, .or, .xor, .shl, .shr, .ushr]

/-- The `int` form of the instruction. -/
def baseOpcode : ArithOp → Opcode
  | .add => .iadd
  | .sub => .isub
  | .mul => .imul
  | .div => .idiv
  | .rem => .irem
  | .shl => .ishl
  | .shr => .ishr
  | .ushr => .iushr
  | .and => .iand
  | .or => .ior
  | .xor => .ixor

def isShift : ArithOp → Bool
  | .shl | .shr | .ushr => true
  | _ => false

def isBitwise : ArithOp → Bool
  | .and | .or | .xor => true
  | _ => false

def symbol : ArithOp → String
  | .add => "+"
  | .sub => "-"
  | .mul => "*"
  | .div => "/"
  | .rem => "%"
  | .and => "&"
  | .or => "|"
  | .xor => "^"
  | .shl => "<<"
  | .shr => ">>"
  | .ushr => ">>>"

end ArithOp

/-- Relational operators, in the order of the machine's branch families. -/
inductive RelOp where
  | eq
  | ne
  | lt
  | ge
  | gt
  | le
  deriving DecidableEq

namespace RelOp

/-- All operators, in declaration order. -/
def all : List RelOp :=
  [.eq, .ne, .lt, .ge, .gt, .le]

/-- The operator that holds exactly when this one does not. -/
def negate : RelOp → RelOp
  | .eq => .ne
  | .ne => .eq
  | .lt => .ge
  | .ge => .lt
  | .gt => .le
  | .le => .gt

@[simp]
theorem negate_negate (op : RelOp) : op.negate.negate = op := by
  cases op <;> rfl

def isEquality : RelOp → Bool
  | .eq | .ne => true
  | _ => false

@[simp]
theorem isEquality_negate (op : RelOp) : op.negate.isEquality = op.isEquality := by
  cases op <;> rfl

/-- Position in a branch family. -/
def offset : RelOp → UInt8
  | .eq => 0
  | .ne => 1
  | .lt => 2
  | .ge => 3
  | .gt => 4
  | .le => 5

/-- The branch that compares one `int` with zero. -/
def zeroBranch (op : RelOp) : Opcode :=
  .ifeq + op.offset

/-- The branch that compares two `int` values. -/
def intBranch (op : RelOp) : Opcode :=
  .ifIcmpeq + op.offset

/-- The branch that compares two references; only equality has one. -/
def referenceBranch? : RelOp → Option Opcode
  | .eq => some .ifAcmpeq
  | .ne => some .ifAcmpne
  | _ => none

/-- Whether the operator accepts operands in this order relation. -/
def holds : RelOp → Ordering → Bool
  | .eq, o => o == .eq
  | .ne, o => o != .eq
  | .lt, o => o == .lt
  | .ge, o => o != .lt
  | .gt, o => o == .gt
  | .le, o => o != .gt

theorem holds_negate (op : RelOp) (o : Ordering) :
    op.negate.holds o = !op.holds o := by
  cases op <;> cases o <;> rfl

def symbol : RelOp → String
  | .eq => "=="
  | .ne => "!="
  | .lt => "<"
  | .ge => ">="
  | .gt => ">"
  | .le => "<="

end RelOp

end JvmAssembler
