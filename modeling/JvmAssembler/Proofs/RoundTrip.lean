import Mathlib
import JvmAssembler.Proofs.Disassembly
import JvmAssembler.Proofs.Labels

/-!
# Encoded code reads back

Encoding writes every instruction once, in order, and nothing else: reading the
bytes gives the instructions without the labels.  Constants are read through
the pool that encoding leaves, and a branch leads to the instruction after its
label.

Pieces are compared with the instructions they come from.  Their addresses, with
the end of the code as the last one, are the places where branches can lead.
-/

namespace JvmAssembler

/-- The entries that are not labels. -/
def instructions (instrs : List Instr) : List Instr :=
  instrs.filter fun instr => instr.placed? = none

@[simp]
theorem instructions_label (label : Label) (instrs : List Instr) :
    instructions (.label label :: instrs) = instructions instrs :=
  rfl

theorem instructions_cons {instr : Instr} (noLabel : instr.placed? = none) (instrs : List Instr) :
    instructions (instr :: instrs) = instr :: instructions instrs := by
  simp [instructions, noLabel]

@[simp]
theorem placed_cons_label (label : Label) (instrs : List Instr) :
    placed (.label label :: instrs) = label :: placed instrs :=
  rfl

theorem placed_cons {instr : Instr} (noLabel : instr.placed? = none) (instrs : List Instr) :
    placed (instr :: instrs) = placed instrs := by
  simp [placed, noLabel]

/-- An instruction read from bytes stands for a symbolic one: it has the same
opcode and operands, and its index has the right meaning in the pool.  `leads`
tells which offsets lead to a label. -/
inductive StandsFor (this : ClassHandle) (pool : ConstantPool) (leads : Label → Int16 → Prop) :
    Instr → MachineInstr → Prop where
  | op (code : Opcode) : StandsFor this pool leads (.op code) (.op code)
  | int (code : Opcode) (operand : Int32) :
      StandsFor this pool leads (.int code operand) (.int code operand.toInt)
  | type {code : Opcode} {ty : JType} {index : UInt16} {name : String} :
      ty.internalName this = .ok name → pool.className? index = some name →
      StandsFor this pool leads (.type code ty) (.type code index)
  /-- Values of two slots have a load of their own. -/
  | ldc {literal : Literal} {code : Opcode} {index : UInt16} :
      pool.literal? index = some literal → (code = .ldc2W ↔ literal.type.width = 2) →
      StandsFor this pool leads (.ldc literal) (.ldc code index)
  | jump {code : Opcode} {target : Label} {offset : Int16} :
      leads target offset → StandsFor this pool leads (.jump code target) (.jump code offset)
  | var (code : Opcode) (slot : Slot) : StandsFor this pool leads (.var code slot) (.var code slot)
  | member {code : Opcode} {ref : MemberRef} {index : UInt16} {count : Option UInt8}
      {symbol : SymbolicRef} :
      ref.symbolic this = .ok symbol → pool.member? index = some symbol →
      (count.map UInt8.toUInt16 =
        if code = .invokeinterface then some (1 + ref.signature.argSlots) else none) →
      StandsFor this pool leads (.member code ref) (.member code index count)

/-- A label of `instrs` is at an address: that of the instruction that follows
it.  `addresses` are those of the instructions, then the end of the code. -/
def LabelAt (instrs : List Instr) (addresses : List Nat) (label : Label) (address : Nat) : Prop :=
  ∃ before after, instrs = before ++ .label label :: after ∧
    addresses[(instructions before).length]? = some address

namespace StandsFor

variable {this : ClassHandle} {pool after : ConstantPool} {leads leads' : Label → Int16 → Prop}
  {instr : Instr} {read : MachineInstr}

/-- Meanings in the pool stay, and a branch may lead where it is known to. -/
theorem mono (stands : StandsFor this pool leads instr read) (grown : pool.Extends after)
    (further : ∀ {label offset}, leads label offset → leads' label offset) :
    StandsFor this after leads' instr read := by
  cases stands with
  | op code => exact .op code
  | int code operand => exact .int code operand
  | type named found => exact .type named (grown.className? found)
  | ldc found wide => exact .ldc (grown.literal? found) wide
  | jump lands => exact .jump (further lands)
  | var code slot => exact .var code slot
  | member named found count => exact .member named (grown.member? found) count

end StandsFor

namespace Bytecode

open MachineInstr

/-! ## Pieces -/

/-- A piece is the encoding of an instruction. -/
inductive PieceOf (this : ClassHandle) (pool : ConstantPool) : Instr → Piece → Prop where
  | label (label : Label) : PieceOf this pool (.label label) (.label label)
  | branch {code : Opcode} (target : Label) : code.form? = some .branch →
      PieceOf this pool (.jump code target) (.branch code target)
  | bytes {instr : Instr} {content : List UInt8} {read : MachineInstr} :
      instr.placed? = none → Spells content read →
      StandsFor this pool (fun _ _ => False) instr read → PieceOf this pool instr (.bytes content)

variable {this : ClassHandle} {pool after : ConstantPool}

theorem PieceOf.mono {instr : Instr} {p : Piece} (made : PieceOf this pool instr p)
    (grown : pool.Extends after) : PieceOf this after instr p := by
  cases made with
  | label label => exact .label label
  | branch target form => exact .branch target form
  | bytes noLabel spells stands => exact .bytes noLabel spells (stands.mono grown id)

theorem pieceOf_of_piece {instr : Instr} {p : Piece} (indexed : pool.Indexed)
    (own : instr.HasOwnOpcode) (encoded : piece this instr pool = .ok p after) :
    pool.Extends after ∧ PieceOf this after instr p := by
  cases instr with
  | op code =>
      cases encoded
      exact ⟨.refl _, .bytes rfl (spells_op own) (.op code)⟩
  | int code operand =>
      obtain ⟨content, _, lifted, rest⟩ := bind_eq_ok.mp encoded
      obtain ⟨bytes, rfl⟩ := ConstantPool.lift_eq_ok.mp lifted
      cases rest
      exact ⟨.refl _, .bytes rfl (spells_int bytes) (.int code operand)⟩
  | type code ty =>
      obtain ⟨index, _, added, rest⟩ := bind_eq_ok.mp encoded
      cases rest
      obtain ⟨grown, name, named, found⟩ := ConstantPool.className?_of_addType indexed added
      exact ⟨grown, .bytes rfl (spells_type own index) (.type named found)⟩
  | ldc literal =>
      obtain ⟨index, _, added, rest⟩ := bind_eq_ok.mp encoded
      cases rest
      obtain ⟨grown, found⟩ := ConstantPool.literal?_of_addLiteral indexed added
      obtain ⟨code, spells, wide⟩ := spells_ldc literal index
      exact ⟨grown, .bytes rfl spells (.ldc found wide)⟩
  | jump code target =>
      cases encoded
      exact ⟨.refl _, .branch target own⟩
  | label position =>
      cases encoded
      exact ⟨.refl _, .label position⟩
  | var code slot =>
      obtain ⟨content, _, lifted, rest⟩ := bind_eq_ok.mp encoded
      obtain ⟨bytes, rfl⟩ := ConstantPool.lift_eq_ok.mp lifted
      cases rest
      exact ⟨.refl _, .bytes rfl (spells_var bytes) (.var code slot)⟩
  | member code ref =>
      obtain ⟨index, _, added, rest⟩ := bind_eq_ok.mp encoded
      obtain ⟨content, _, lifted, rest⟩ := bind_eq_ok.mp rest
      obtain ⟨counted, rfl⟩ := ConstantPool.lift_eq_ok.mp lifted
      cases rest
      obtain ⟨grown, symbol, named, found⟩ := ConstantPool.member?_of_addMemberRef indexed added
      obtain ⟨count, spells, isCount⟩ := spells_member own counted index
      exact ⟨grown, .bytes rfl spells (.member named found isCount)⟩

/-- Every instruction gives its piece, whose constants the final pool has. -/
theorem pieceOf_of_pieces {instrs : List Instr} {ps : List Piece} (indexed : pool.Indexed)
    (own : ∀ instr ∈ instrs, instr.HasOwnOpcode) (encoded : pieces this instrs pool = .ok ps after) :
    pool.Extends after ∧ List.Forall₂ (PieceOf this after) instrs ps := by
  induction instrs generalizing pool ps with
  | nil =>
      cases encoded
      exact ⟨.refl _, .nil⟩
  | cons instr rest ih =>
      rw [List.forall_mem_cons] at own
      rw [pieces, List.mapM_cons] at encoded
      obtain ⟨p, middle, first, encoded⟩ := bind_eq_ok.mp encoded
      obtain ⟨others, _, remaining, built⟩ := bind_eq_ok.mp encoded
      cases built
      obtain ⟨grown, made⟩ := pieceOf_of_piece indexed own.1 first
      obtain ⟨grown', madeOthers⟩ := ih (grown.indexed indexed) own.2 remaining
      exact ⟨grown.trans grown', .cons (made.mono grown') madeOthers⟩

/-! ## Addresses -/

/-- Addresses of the pieces that are instructions, then the end of the code. -/
def marks (start : Nat) : List Piece → List Nat
  | [] => [start]
  | .label _ :: rest => marks start rest
  | p :: rest => start :: marks (start + p.size) rest

theorem head?_marks (start : Nat) (ps : List Piece) : (marks start ps)[0]? = some start := by
  induction ps with
  | nil => rfl
  | cons p rest ih =>
      cases p with
      | bytes | branch => rfl
      | label => exact ih

/-- The address found for a label that is placed once is that of the instruction
after it. -/
theorem labelAt_of_addresses {instrs : List Instr} {ps : List Piece} {target : Label}
    {address : Nat} (made : List.Forall₂ (PieceOf this pool) instrs ps)
    (once : (placed instrs).Nodup) (start : Nat) (known : List (Label × Nat))
    (found : (addresses start known ps).lookup target = some address) :
    LabelAt instrs (marks start ps) target address ∨
      (target ∉ placed instrs ∧ known.lookup target = some address) := by
  induction made generalizing start known with
  | nil => exact .inr ⟨by simp, found⟩
  | @cons instr p instrs ps head _ ih =>
      -- An instruction before the label shifts the place by one.
      have shift {size : Nat} (noLabel : instr.placed? = none)
          (later : LabelAt instrs (marks (start + size) ps) target address ∨
            (target ∉ placed instrs ∧ known.lookup target = some address)) :
          LabelAt (instr :: instrs) (start :: marks (start + size) ps) target address ∨
            (target ∉ placed (instr :: instrs) ∧ known.lookup target = some address) := by
        rw [placed_cons noLabel]
        refine later.imp_left ?_
        rintro ⟨before, rest, rfl, isThere⟩
        refine ⟨instr :: before, rest, rfl, ?_⟩
        rwa [instructions_cons noLabel, List.length_cons, List.getElem?_cons_succ]
      cases head with
      | branch _ _ =>
          rw [placed_cons rfl] at once
          exact shift rfl (ih once _ _ found)
      | bytes noLabel _ _ =>
          rw [placed_cons noLabel] at once
          exact shift noLabel (ih once _ _ found)
      | label position =>
          rw [placed_cons_label, List.nodup_cons] at once
          rcases ih once.2 start ((position, start) :: known) found with
            ⟨before, rest, rfl, isThere⟩ | ⟨absent, here⟩
          · exact .inl ⟨.label position :: before, rest, rfl, isThere⟩
          · rw [List.lookup_cons] at here
            by_cases same : target = position
            · subst same
              simp only [beq_self_eq_true, Option.some.injEq] at here
              subst here
              exact .inl ⟨[], instrs, rfl, head?_marks start ps⟩
            · simp only [beq_eq_false_iff_ne.mpr same] at here
              exact .inr ⟨by simp [same, absent], here⟩

/-! ## Bytes -/

theorem except_bind_eq_ok {α β : Type} {action : Except Error α} {next : α → Except Error β}
    {b : β} : (action >>= next) = .ok b ↔ ∃ a, action = .ok a ∧ next a = .ok b := by
  cases action <;> simp [bind, Except.bind]

theorem lookup_of_branchOffset {known : List (Label × Nat)} {start : Nat} {target : Label}
    {offset : Int16} (found : branchOffset known start target = .ok offset) :
    ∃ address, known.lookup target = some address ∧ (start + offset.toInt : Int) = address := by
  unfold branchOffset at found
  split at found
  · contradiction
  · rename_i address here
    dsimp only at found
    split at found
    · rename_i fits
      cases found
      refine ⟨address, here, ?_⟩
      rw [Int16.toInt_ofInt_of_le (by simpa using fits.1) (by have := fits.2; simp; omega)]
      omega
    · contradiction

/-- The read instructions stand for the symbolic ones, with branches that lead to
the known addresses. -/
def ReadAs (this : ClassHandle) (pool : ConstantPool) (known : Label → Nat → Prop)
    (instrs : List Instr) (decoded : List (Nat × MachineInstr)) : Prop :=
  List.Forall₂
    (fun instr entry =>
      StandsFor this pool
        (fun target offset => ∃ address, known target address ∧
          (entry.1 + offset.toInt : Int) = address)
        instr entry.2)
    instrs decoded

/-- Resolved pieces are read back one by one. -/
theorem decode?_of_resolve {instrs : List Instr} {ps : List Piece} {known : List (Label × Nat)}
    {start : Nat} {bytes : List UInt8} (made : List.Forall₂ (PieceOf this pool) instrs ps)
    (resolved : resolve known start ps = .ok bytes) :
    ∃ decoded, decode? start bytes = some decoded ∧
      decoded.map Prod.fst ++ [start + bytes.length] = marks start ps ∧
      ReadAs this pool (fun target address => known.lookup target = some address)
        (instructions instrs) decoded := by
  induction made generalizing start bytes with
  | nil =>
      cases resolved
      exact ⟨[], decode?_nil start, rfl, .nil⟩
  | @cons instr p instrs ps head _ ih =>
      cases head with
      | label position => exact ih resolved
      | @branch code target form =>
          obtain ⟨offset, jumped, resolved⟩ := except_bind_eq_ok.mp resolved
          obtain ⟨others, remaining, built⟩ := except_bind_eq_ok.mp resolved
          cases built
          obtain ⟨decoded, read, places, stand⟩ := ih remaining
          refine ⟨(start, .jump code offset) :: decoded, ?_, ?_, ?_⟩
          · rw [(spells_jump form offset).decode?]
            simp [read]
          · have length : start + (code :: bytes16 offset.toUInt16 ++ others).length =
                start + 3 + others.length := by
              simp only [List.cons_append, List.length_cons, List.length_append, length_bytes16]
              omega
            rw [length]
            simp [marks, ← places, Piece.size]
          · exact .cons (.jump (lookup_of_branchOffset jumped)) stand
      | @bytes _ content read noLabel spells stands =>
          obtain ⟨others, remaining, built⟩ := except_bind_eq_ok.mp resolved
          cases built
          obtain ⟨decoded, readOthers, places, stand⟩ := ih remaining
          refine ⟨(start, read) :: decoded, ?_, ?_, ?_⟩
          · rw [spells.decode?]
            simp [readOthers]
          · simp [marks, ← places, Piece.size, Nat.add_assoc]
          · rw [instructions_cons noLabel]
            exact .cons (stands.mono (.refl _) False.elim) stand

/-- A successful encoding has its pieces, and the bytes are those of the resolved
pieces. -/
theorem resolve_of_encode {limit : Nat} {instrs : List Instr} {bytes : List UInt8}
    (encoded : encode this limit instrs pool = .ok bytes after) :
    ∃ ps, pieces this instrs pool = .ok ps after ∧
      resolve (addresses 0 [] ps) 0 ps = .ok bytes := by
  obtain ⟨ps, middle, made, rest⟩ := bind_eq_ok.mp encoded
  split_ifs at rest
  · cases rest
  · obtain ⟨resolved, rfl⟩ := ConstantPool.lift_eq_ok.mp rest
    exact ⟨ps, made, resolved⟩

/-- Reading encoded code gives the instructions in order.  Every constant means
in the resulting pool what the instruction names, and every branch leads to the
instruction after its label. -/
theorem readAs_of_encode {limit : Nat} {instrs : List Instr} {bytes : List UInt8}
    (reachable : pool.Reachable) (own : ∀ instr ∈ instrs, instr.HasOwnOpcode)
    (once : (placed instrs).Nodup) (encoded : encode this limit instrs pool = .ok bytes after) :
    ∃ decoded, decode? 0 bytes = some decoded ∧
      ReadAs this after (LabelAt instrs (decoded.map Prod.fst ++ [bytes.length]))
        (instructions instrs) decoded := by
  obtain ⟨ps, written, resolved⟩ := resolve_of_encode encoded
  obtain ⟨_, made⟩ := pieceOf_of_pieces reachable.indexed own written
  obtain ⟨decoded, read, places, stand⟩ := decode?_of_resolve made resolved
  rw [Nat.zero_add] at places
  refine ⟨decoded, read, stand.imp fun instr entry stands => stands.mono (.refl _) ?_⟩
  rintro target offset ⟨address, found, leads⟩
  rcases labelAt_of_addresses made once 0 [] found with isAt | ⟨_, unknown⟩
  · exact ⟨address, places ▸ isAt, leads⟩
  · contradiction

end Bytecode

namespace Sample

/-- Every kind of entry, with slots of all three forms and branches both ways. -/
def everyKind : List Instr :=
  [.label ⟨0⟩, .var .iload 3, .var .istore 255, .var .aload 256, .int .bipush (-128),
    .int .sipush 300, .int .newarray 10, .ldc (.int 70000), .ldc (.long (-1)),
    .ldc (.string "né"), .type .checkcast (.array .self), .op .pop, .jump .ifeq ⟨1⟩,
    .member .getstatic
      { owner := .self, name := "hit", signature := ⟨[], .boolean⟩, isField := true },
    .member .invokeinterface
      { owner := .cls "java/util/List", name := "add", signature := ⟨[.int, .long], .void⟩,
        isInterface := true },
    .jump .goto ⟨0⟩, .op .returnVoid, .label ⟨1⟩]

theorem everyKind_readAs :
    ∃ bytes after, Bytecode.encode (.named "demo.T" "java.lang.Object") 65535 everyKind .new =
        .ok bytes after ∧
      ∃ decoded, MachineInstr.decode? 0 bytes = some decoded ∧
        Bytecode.ReadAs (.named "demo.T" "java.lang.Object") after
          (LabelAt everyKind (decoded.map Prod.fst ++ [bytes.length]))
          (instructions everyKind) decoded := by
  have succeeds :
      (match Bytecode.encode (.named "demo.T" "java.lang.Object") 65535 everyKind .new with
        | .ok _ _ => true
        | .error _ _ => false) = true := by
    decide +kernel
  cases result : Bytecode.encode (.named "demo.T" "java.lang.Object") 65535 everyKind .new with
  | ok bytes after =>
      exact ⟨bytes, after, rfl,
        Bytecode.readAs_of_encode .new (by decide) (by decide) result⟩
  | error e after =>
      rw [result] at succeeds
      contradiction

end Sample

end JvmAssembler
