import JvmAssembler.ConstantPool

/-!
# Encoding instructions

Instructions become pieces: bytes that are final, branches whose offset is not
known yet, and label positions.  Once all pieces are known, labels get their
addresses and branches their 16-bit offsets.

Short forms are used where they exist: the compact loads and stores of the
first four slots, and `ldc` for the first 255 constants.  Slots beyond 255 take
the wide form.
-/

namespace JvmAssembler.Bytecode

/-- Encoded instruction with branch targets still symbolic. -/
inductive Piece where
  | bytes (content : List UInt8)
  | branch (code : Opcode) (target : Label)
  | label (position : Label)
  deriving DecidableEq

/-- Number of bytes a piece takes. -/
def Piece.size : Piece → Nat
  | .bytes content => content.length
  | .branch .. => 3
  | .label _ => 0

/-- An instruction with an immediate operand. -/
def intBytes (code : Opcode) (operand : Int32) : Except Error (List UInt8) :=
  let n := operand.toInt
  if code = .bipush then
    if -128 ≤ n ∧ n ≤ 127 then .ok [code, operand.toUInt32.toUInt8]
    else .error (.internal (.operandOutOfRange code operand))
  else if code = .sipush then
    if -32768 ≤ n ∧ n ≤ 32767 then .ok (code :: bytes16 operand.toUInt32.toUInt16)
    else .error (.internal (.operandOutOfRange code operand))
  else if code = .newarray then
    if 0 ≤ n ∧ n ≤ 255 then .ok [code, operand.toUInt32.toUInt8]
    else .error (.internal (.badArrayType operand))
  else .error (.internal (.noImmediate code))

/-- First opcode of the compact forms of a load or store. -/
def compactBase? (code : Opcode) : Option Opcode :=
  if .iload ≤ code && code ≤ .aload then some (Opcode.iload0 + (code - .iload) * 4)
  else if .istore ≤ code && code ≤ .astore then some (Opcode.istore0 + (code - .istore) * 4)
  else none

/-- A load or store of a local. -/
def varBytes (code : Opcode) (slot : Slot) : Except Error (List UInt8) :=
  match compactBase? code with
  | none => .error (.internal (.notLocalOp code))
  | some base =>
      .ok <|
        if slot ≤ 3 then [base + slot.toUInt8]
        else if slot ≤ 255 then [code, slot.toUInt8]
        else [.wide, code] ++ bytes16 slot

/-- A load of the constant with this index. -/
def ldcBytes (literal : Literal) (index : UInt16) : List UInt8 :=
  match literal with
  | .long _ | .double _ => Opcode.ldc2W :: bytes16 index
  | _ => if index ≤ 255 then [Opcode.ldc, index.toUInt8] else Opcode.ldcW :: bytes16 index

/-- The operand count that an interface call carries after the index.  It is counted in
16 bits. -/
def countBytes (code : Opcode) (ref : MemberRef) : Except Error (List UInt8) :=
  if code = .invokeinterface then
    let count := 1 + ref.signature.argSlots
    if count ≤ 255 then .ok [count.toUInt8, 0]
    else .error (.invalidInput (.tooManyArguments ref))
  else .ok []

/-- Encode one instruction, interning its constants. -/
def piece (this : ClassHandle) : Instr → PoolOp Piece
  | .op code => return .bytes [code]
  | .int code operand => return .bytes (← ConstantPool.lift (intBytes code operand))
  | .type code ty => do
      let index ← ConstantPool.addType this ty
      return .bytes (code :: bytes16 index)
  | .ldc literal => do
      let index ← ConstantPool.addLiteral literal
      return .bytes (ldcBytes literal index)
  | .jump code target => return .branch code target
  | .label position => return .label position
  | .var code slot => return .bytes (← ConstantPool.lift (varBytes code slot))
  | .member code ref => do
      let index ← ConstantPool.addMemberRef this ref
      let count ← ConstantPool.lift (countBytes code ref)
      return .bytes (code :: bytes16 index ++ count)

/-- Encode instructions in order. -/
def pieces (this : ClassHandle) (instrs : List Instr) : PoolOp (List Piece) :=
  instrs.mapM (piece this)

/-- Total number of bytes. -/
def codeSize : List Piece → Nat
  | [] => 0
  | p :: rest => p.size + codeSize rest

/-- Addresses of the labels in code that starts at `start`, latest first. -/
def addresses (start : Nat) (known : List (Label × Nat)) : List Piece → List (Label × Nat)
  | [] => known
  | .label position :: rest => addresses start ((position, start) :: known) rest
  | p :: rest => addresses (start + p.size) known rest

/-- The offset from a branch to its target, which must fit 16 bits. -/
def branchOffset (known : List (Label × Nat)) (start : Nat) (target : Label) :
    Except Error Int16 :=
  match known.lookup target with
  | none => .error (.internal (.unplacedLabel target))
  | some address =>
      let offset : Int := (address : Int) - start
      if -32768 ≤ offset ∧ offset ≤ 32767 then .ok (Int16.ofInt offset)
      else .error (.branchTooFar offset)

/-- The bytes of code that starts at `start`, with every branch resolved. -/
def resolve (known : List (Label × Nat)) (start : Nat) : List Piece → Except Error (List UInt8)
  | [] => .ok []
  | .bytes content :: rest => do
      let others ← resolve known (start + content.length) rest
      return content ++ others
  | .branch code target :: rest => do
      let offset ← branchOffset known start target
      let others ← resolve known (start + 3) rest
      return code :: bytes16 offset.toUInt16 ++ others
  | .label _ :: rest => resolve known start rest

/-- Encode an instruction list of at most `limit` bytes, interning its constants
in the pool. -/
def encode (this : ClassHandle) (limit : Nat) (instrs : List Instr) : PoolOp (List UInt8) := do
  let ps ← pieces this instrs
  if limit < codeSize ps then throw (.codeTooLarge (codeSize ps))
  ConstantPool.lift (resolve (addresses 0 [] ps) 0 ps)

end JvmAssembler.Bytecode
