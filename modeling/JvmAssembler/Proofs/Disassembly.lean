import Mathlib
import JvmAssembler.Bytecode
import JvmAssembler.Proofs.PoolLookup

/-!
# Reading code back

An opcode determines how many operand bytes follow it, so code is read from its
start, one instruction after the other.  The forms that load or store a local
(compact, one-byte and wide) are read as one instruction with its slot.

The forms an assembler of 16-bit branches does not write (`iinc`, `ret`, the
switches, `invokedynamic`, `multianewarray` and the wide branches) are not read.
-/

namespace JvmAssembler

/-! ## The operands of an opcode -/

/-- The operands that follow an opcode. -/
inductive OperandForm where
  | none
  /-- A load or store whose slot is part of the opcode. -/
  | compact (code : Opcode) (slot : Slot)
  /-- A signed byte. -/
  | byte
  /-- A signed 16-bit number. -/
  | short
  /-- The element kind of an array of primitives. -/
  | arrayKind
  /-- A pool index of one byte. -/
  | constant
  /-- A pool index of two bytes. -/
  | wideConstant
  /-- A slot of one byte. -/
  | localSlot
  /-- A signed 16-bit offset from the opcode's address. -/
  | branch
  /-- The pool index of a class. -/
  | type
  /-- The pool index of a field or method. -/
  | member
  /-- The pool index of a method, a count and a zero. -/
  | interfaceCall
  /-- The opcode of a load or store with a slot of two bytes. -/
  | wide
  deriving DecidableEq

/-- The operands of each opcode that is read. -/
def Opcode.form? (code : Opcode) : Option OperandForm :=
  if code < .bipush then some .none
  else if code = .bipush then some .byte
  else if code = .sipush then some .short
  else if code = .ldc then some .constant
  else if code ≤ .ldc2W then some .wideConstant
  else if code ≤ .aload then some .localSlot
  else if code < .iaload then
    some (.compact (.iload + (code - .iload0) / 4) ((code - .iload0) % 4).toUInt16)
  else if code < .istore then some .none
  else if code ≤ .astore then some .localSlot
  else if code < .iastore then
    some (.compact (.istore + (code - .istore0) / 4) ((code - .istore0) % 4).toUInt16)
  else if code < 0x84 then some .none
  else if code < .i2l then none
  else if code < .ifeq then some .none
  else if code ≤ 0xa8 then some .branch
  else if code < .ireturn then none
  else if code ≤ .returnVoid then some .none
  else if code < .invokeinterface then some .member
  else if code = .invokeinterface then some .interfaceCall
  else if code < .newObject then none
  else if code = .newObject then some .type
  else if code = .newarray then some .arrayKind
  else if code = .anewarray then some .type
  else if code ≤ .athrow then some .none
  else if code ≤ .instanceof then some .type
  else if code < .wide then some .none
  else if code = .wide then some .wide
  else if code < .ifnull then none
  else if code ≤ .ifnonnull then some .branch
  else none

/-- The instruction has an opcode that takes operands of its kind. -/
def Instr.HasOwnOpcode : Instr → Prop
  | .op code => code.form? = some .none
  | .int code _ => code = .bipush ∨ code = .sipush ∨ code = .newarray
  | .type code _ => code.form? = some .type
  | .jump code _ => code.form? = some .branch
  | .var code _ => code.form? = some .localSlot
  | .member code _ => code.form? = some .member ∨ code.form? = some .interfaceCall
  | .ldc _ | .label _ => True

instance Instr.decidableHasOwnOpcode : (instr : Instr) → Decidable instr.HasOwnOpcode
  | .op code => inferInstanceAs (Decidable (code.form? = some .none))
  | .int code _ =>
      inferInstanceAs (Decidable (code = .bipush ∨ code = .sipush ∨ code = .newarray))
  | .type code _ => inferInstanceAs (Decidable (code.form? = some .type))
  | .jump code _ => inferInstanceAs (Decidable (code.form? = some .branch))
  | .var code _ => inferInstanceAs (Decidable (code.form? = some .localSlot))
  | .member code _ =>
      inferInstanceAs (Decidable (code.form? = some .member ∨ code.form? = some .interfaceCall))
  | .ldc _ | .label _ => inferInstanceAs (Decidable True)

/-! ## Instructions read from bytes -/

/-- An instruction as it stands in code, with pool indices and offsets. -/
inductive MachineInstr where
  | op (code : Opcode)
  | int (code : Opcode) (operand : Int)
  | type (code : Opcode) (index : UInt16)
  | ldc (code : Opcode) (index : UInt16)
  | jump (code : Opcode) (offset : Int16)
  | var (code : Opcode) (slot : Slot)
  /-- Only an interface call has a count. -/
  | member (code : Opcode) (index : UInt16) (count : Option UInt8)
  deriving DecidableEq

namespace MachineInstr

/-- Read a byte. -/
def next? : List UInt8 → Option (UInt8 × List UInt8)
  | b :: rest => some (b, rest)
  | _ => none

/-- Read a 16-bit number. -/
def next16? : List UInt8 → Option (UInt16 × List UInt8)
  | high :: low :: rest => some (word16 high low, rest)
  | _ => none

/-- Read the operands of an opcode; what follows them is returned too. -/
def readOperands? (code : Opcode) (form : OperandForm) (bytes : List UInt8) :
    Option (MachineInstr × List UInt8) :=
  match form with
  | .none => some (.op code, bytes)
  | .compact base slot => some (.var base slot, bytes)
  | .byte => (next? bytes).map fun (b, rest) => (.int code b.toInt8.toInt, rest)
  | .short => (next16? bytes).map fun (n, rest) => (.int code n.toInt16.toInt, rest)
  | .arrayKind => (next? bytes).map fun (b, rest) => (.int code b.toNat, rest)
  | .constant => (next? bytes).map fun (b, rest) => (.ldc code b.toUInt16, rest)
  | .wideConstant => (next16? bytes).map fun (index, rest) => (.ldc code index, rest)
  | .localSlot => (next? bytes).map fun (b, rest) => (.var code b.toUInt16, rest)
  | .branch => (next16? bytes).map fun (offset, rest) => (.jump code offset.toInt16, rest)
  | .type => (next16? bytes).map fun (index, rest) => (.type code index, rest)
  | .member => (next16? bytes).map fun (index, rest) => (.member code index none, rest)
  | .interfaceCall => do
      let (index, rest) ← next16? bytes
      let (count, rest) ← next? rest
      let (zero, rest) ← next? rest
      if zero = 0 then some (.member code index (some count), rest) else none
  | .wide => do
      let (base, rest) ← next? bytes
      let (slot, rest) ← next16? rest
      if Opcode.form? base = some .localSlot then some (.var base slot, rest) else none

/-- The first instruction of some bytes, and the bytes after it. -/
def decodeOne? : List UInt8 → Option (MachineInstr × List UInt8)
  | [] => none
  | code :: operands => (Opcode.form? code).bind (readOperands? code · operands)

@[simp]
theorem next?_cons (b : UInt8) (rest : List UInt8) : next? (b :: rest) = some (b, rest) :=
  rfl

@[simp]
theorem next16?_append (n : UInt16) (rest : List UInt8) :
    next16? (bytes16 n ++ rest) = some (n, rest) := by
  simp [bytes16, next16?]

theorem length_lt_of_next? {bytes rest : List UInt8} {b : UInt8}
    (read : next? bytes = some (b, rest)) : rest.length < bytes.length := by
  unfold next? at read
  split at read <;> simp_all

theorem length_lt_of_next16? {bytes rest : List UInt8} {n : UInt16}
    (read : next16? bytes = some (n, rest)) : rest.length < bytes.length := by
  unfold next16? at read
  split at read <;> simp_all

theorem length_le_of_readOperands? {code : Opcode} {form : OperandForm}
    {bytes rest : List UInt8} {instr : MachineInstr}
    (read : readOperands? code form bytes = some (instr, rest)) : rest.length ≤ bytes.length := by
  unfold readOperands? at read
  split at read <;>
    simp only [Option.map_eq_some_iff, Option.bind_eq_bind, Option.bind_eq_some_iff, Prod.exists,
      Prod.mk.injEq, Option.some.injEq, Option.ite_none_right_eq_some] at read <;>
    grind [→ length_lt_of_next?, → length_lt_of_next16?]

theorem length_lt_of_decodeOne? {bytes rest : List UInt8} {instr : MachineInstr}
    (read : decodeOne? bytes = some (instr, rest)) : rest.length < bytes.length := by
  cases bytes with
  | nil => simp [decodeOne?] at read
  | cons code operands =>
      obtain ⟨form, _, readOperands⟩ := Option.bind_eq_some_iff.mp read
      exact Nat.lt_succ_of_le (length_le_of_readOperands? readOperands)

/-- The instructions of code that starts at address `start`, each with its
address. -/
def decode? (start : Nat) (bytes : List UInt8) : Option (List (Nat × MachineInstr)) :=
  if bytes.isEmpty then some []
  else
    match read : decodeOne? bytes with
    | none => none
    | some (instr, rest) =>
        have := length_lt_of_decodeOne? read
        (decode? (start + (bytes.length - rest.length)) rest).map ((start, instr) :: ·)
termination_by bytes.length

/-- Bytes that are one instruction whatever follows them. -/
def Spells (content : List UInt8) (instr : MachineInstr) : Prop :=
  ∀ rest, decodeOne? (content ++ rest) = some (instr, rest)

@[simp]
theorem decode?_nil (start : Nat) : decode? start [] = some [] := by
  rw [decode?, List.isEmpty_nil, if_pos rfl]

/-- Code that begins with the bytes of an instruction is read as this
instruction and the code after it. -/
theorem Spells.decode? {content : List UInt8} {instr : MachineInstr} (spells : Spells content instr)
    (start : Nat) (rest : List UInt8) :
    decode? start (content ++ rest) =
      (decode? (start + content.length) rest).map ((start, instr) :: ·) := by
  have first := spells rest
  have shorter := length_lt_of_decodeOne? first
  have nonempty : (content ++ rest).isEmpty = false := by
    cases content
    · simp at shorter
    · rfl
  rw [MachineInstr.decode?, if_neg (by simp [nonempty])]
  split
  · rename_i none
    simp [none] at first
  · rename_i found
    rw [first, Option.some.injEq, Prod.mk.injEq] at found
    obtain ⟨rfl, rfl⟩ := found
    simp

end MachineInstr

namespace Bytecode

open MachineInstr

/-! ## What each encoding spells -/

theorem spells_op {code : Opcode} (form : code.form? = some .none) : Spells [code] (.op code) := by
  intro rest
  simp [decodeOne?, form, readOperands?]

theorem spells_type {code : Opcode} (form : code.form? = some .type) (index : UInt16) :
    Spells (code :: bytes16 index) (.type code index) := by
  intro rest
  simp [decodeOne?, form, readOperands?]

theorem spells_jump {code : Opcode} (form : code.form? = some .branch) (offset : Int16) :
    Spells (code :: bytes16 offset.toUInt16) (.jump code offset) := by
  intro rest
  simp [decodeOne?, form, readOperands?]

/-- A 32-bit number as its unsigned form gives it. -/
theorem toInt_eq_bmod (n : Int32) : n.toInt = (n.toUInt32.toNat : Int).bmod (2 ^ 32) :=
  BitVec.toInt_eq_toNat_bmod _

/-- A number that fits a signed byte is that byte. -/
theorem toInt_toInt8 {n : Int32} (fits : -128 ≤ n.toInt ∧ n.toInt ≤ 127) :
    n.toUInt32.toUInt8.toInt8.toInt = n.toInt := by
  have byte : n.toUInt32.toUInt8.toInt8.toInt = (n.toUInt32.toUInt8.toNat : Int).bmod (2 ^ 8) :=
    BitVec.toInt_eq_toNat_bmod _
  have number := toInt_eq_bmod n
  have small := n.toUInt32.toNat_lt
  rw [UInt32.toNat_toUInt8] at byte
  simp only [Int.bmod] at byte number
  omega

/-- A number that fits 16 bits with a sign is that 16-bit number. -/
theorem toInt_toInt16 {n : Int32} (fits : -32768 ≤ n.toInt ∧ n.toInt ≤ 32767) :
    n.toUInt32.toUInt16.toInt16.toInt = n.toInt := by
  have short :
      n.toUInt32.toUInt16.toInt16.toInt = (n.toUInt32.toUInt16.toNat : Int).bmod (2 ^ 16) :=
    BitVec.toInt_eq_toNat_bmod _
  have number := toInt_eq_bmod n
  have small := n.toUInt32.toNat_lt
  rw [UInt32.toNat_toUInt16] at short
  simp only [Int.bmod] at short number
  omega

/-- A number that fits an unsigned byte is that byte. -/
theorem toNat_toUInt8 {n : Int32} (fits : 0 ≤ n.toInt ∧ n.toInt ≤ 255) :
    (n.toUInt32.toUInt8.toNat : Int) = n.toInt := by
  have number := toInt_eq_bmod n
  have small := n.toUInt32.toNat_lt
  rw [UInt32.toNat_toUInt8]
  simp only [Int.bmod] at number
  omega

theorem spells_int {code : Opcode} {operand : Int32} {content : List UInt8}
    (encoded : intBytes code operand = .ok content) :
    Spells content (.int code operand.toInt) := by
  intro rest
  unfold intBytes at encoded
  dsimp only at encoded
  split_ifs at encoded with isByte fits isShort fits isArray fits <;> cases encoded
  · subst isByte
    have form : Opcode.form? .bipush = some .byte := rfl
    simp [decodeOne?, form, readOperands?, toInt_toInt8 fits]
  · subst isShort
    have form : Opcode.form? .sipush = some .short := rfl
    simp [decodeOne?, form, readOperands?, toInt_toInt16 fits]
  · subst isArray
    have form : Opcode.form? .newarray = some .arrayKind := rfl
    simp only [List.cons_append, List.nil_append, decodeOne?, form, Option.bind_some, readOperands?,
      next?_cons, Option.map_some, toNat_toUInt8 fits]

theorem toUInt16_toUInt8 {n : UInt16} (small : n ≤ 255) : n.toUInt8.toUInt16 = n := by
  apply UInt16.toNat_inj.mp
  have := UInt16.le_iff_toNat_le.mp small
  simp only [UInt8.toNat_toUInt16, UInt16.toNat_toUInt8, UInt16.toNat_ofNat] at this ⊢
  omega

/-- A constant is loaded by its index; the load tells whether the value takes
two slots. -/
theorem spells_ldc (literal : Literal) (index : UInt16) :
    ∃ code, Spells (ldcBytes literal index) (.ldc code index) ∧
      (code = .ldc2W ↔ literal.type.width = 2) := by
  have wide (code : Opcode) (form : code.form? = some .wideConstant) :
      Spells (code :: bytes16 index) (.ldc code index) := by
    intro rest
    simp [decodeOne?, form, readOperands?]
  have narrow : ∃ code,
      Spells (if index ≤ 255 then [Opcode.ldc, index.toUInt8] else Opcode.ldcW :: bytes16 index)
        (.ldc code index) ∧ code ≠ .ldc2W := by
    split
    · rename_i small
      have form : Opcode.form? .ldc = some .constant := rfl
      refine ⟨.ldc, fun rest => ?_, by decide⟩
      simp [decodeOne?, form, readOperands?, toUInt16_toUInt8 small]
    · exact ⟨.ldcW, wide .ldcW rfl, by decide⟩
  cases literal with
  | long | double => exact ⟨.ldc2W, wide .ldc2W rfl, iff_of_true rfl rfl⟩
  | int | float | string =>
      obtain ⟨code, spells, other⟩ := narrow
      exact ⟨code, spells, iff_of_false other (show (1 : Nat) ≠ 2 by decide)⟩

/-- Loads and stores come in families of five. -/
theorem family_of_compactBase? {code base : Opcode} (found : compactBase? code = some base) :
    ∃ first ∈ [Opcode.iload, Opcode.istore], ∃ k : Fin 5, code = first + UInt8.ofNat k := by
  have family {first last : Opcode} (width : last.toNat = first.toNat + 4) (low : first ≤ code)
      (high : code ≤ last) : ∃ k : Fin 5, code = first + UInt8.ofNat k := by
    have low := UInt8.le_iff_toNat_le.mp low
    have high := UInt8.le_iff_toNat_le.mp high
    have small := code.toNat_lt
    refine ⟨⟨code.toNat - first.toNat, by omega⟩, UInt8.toNat_inj.mp ?_⟩
    simp only [UInt8.toNat_add, UInt8.toNat_ofNat']
    omega
  unfold compactBase? at found
  simp only [Bool.and_eq_true, decide_eq_true_eq] at found
  split_ifs at found with isLoad isStore
  · exact ⟨.iload, by simp, family (by decide) isLoad.1 isLoad.2⟩
  · exact ⟨.istore, by simp, family (by decide) isStore.1 isStore.2⟩

/-- The four compact forms of a load or store follow each other. -/
theorem form?_of_compactBase? {code base : Opcode} (found : compactBase? code = some base) :
    code.form? = some .localSlot ∧
      ∀ slot : Slot, slot ≤ 3 → (base + slot.toUInt8).form? = some (.compact code slot) := by
  have table : ∀ first ∈ [Opcode.iload, Opcode.istore], ∀ k : Fin 5,
      ∀ base ∈ compactBase? (first + UInt8.ofNat k),
        Opcode.form? (first + UInt8.ofNat k) = some .localSlot ∧
          ∀ n : Fin 4, Opcode.form? (base + UInt8.ofNat n) =
            some (.compact (first + UInt8.ofNat k) (UInt16.ofNat n)) := by
    decide +kernel
  obtain ⟨first, isFirst, k, rfl⟩ := family_of_compactBase? found
  obtain ⟨isLocal, compact⟩ := table first isFirst k base found
  refine ⟨isLocal, fun slot small => ?_⟩
  have bound : slot.toNat < 4 := Nat.lt_succ_of_le (UInt16.le_iff_toNat_le.mp small)
  have form := compact ⟨slot.toNat, bound⟩
  rwa [UInt16.ofNat_toNat, show UInt8.ofNat slot.toNat = slot.toUInt8 from rfl] at form

theorem spells_var {code : Opcode} {slot : Slot} {content : List UInt8}
    (encoded : varBytes code slot = .ok content) : Spells content (.var code slot) := by
  intro rest
  unfold varBytes at encoded
  split at encoded
  · contradiction
  · rename_i base found
    obtain ⟨form, compact⟩ := form?_of_compactBase? found
    rw [Except.ok.injEq] at encoded
    subst encoded
    split_ifs with first small
    · simp [decodeOne?, compact slot first, readOperands?]
    · simp [decodeOne?, form, readOperands?, toUInt16_toUInt8 small]
    · have wide : Opcode.form? .wide = some .wide := rfl
      simp [decodeOne?, wide, readOperands?, form]

theorem spells_member {code : Opcode} {ref : MemberRef} {content : List UInt8}
    (form : code.form? = some .member ∨ code.form? = some .interfaceCall)
    (encoded : countBytes code ref = .ok content) (index : UInt16) :
    ∃ count, Spells (code :: bytes16 index ++ content) (.member code index count) ∧
      (count.map UInt8.toUInt16 =
        if code = .invokeinterface then some (1 + ref.signature.argSlots) else none) := by
  unfold countBytes at encoded
  dsimp only at encoded
  split_ifs at encoded with isInterface fits
  · cases encoded
    subst isInterface
    refine ⟨some (1 + ref.signature.argSlots).toUInt8, fun rest => ?_, ?_⟩
    · have interfaceForm : Opcode.form? .invokeinterface = some .interfaceCall := rfl
      simp [decodeOne?, interfaceForm, readOperands?]
    · rw [if_pos rfl, Option.map_some, toUInt16_toUInt8 fits]
  · cases encoded
    refine ⟨none, fun rest => ?_, by simp [isInterface]⟩
    have member : code.form? = some .member := by
      have only : ∀ code : UInt8, Opcode.form? code = some .interfaceCall →
          code = Opcode.invokeinterface := by
        decide +kernel
      exact form.resolve_right fun other => isInterface (only code other)
    simp [decodeOne?, member, readOperands?]

end Bytecode

end JvmAssembler
