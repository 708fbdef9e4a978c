import Mathlib
import JvmAssembler.ConstantPool

/-!
# Serialized constants can be told apart

The pool recognises a constant by its bytes.  That is right only if different
constants have different bytes: numbers can be read back from their bytes, and
a text can be read back from its modified UTF-8 form unit by unit.

A code is read item by item when the first item of a list can be told from any
continuation.  Both steps of the text encoding, from characters to 16-bit units
and from units to bytes, are of this kind.
-/

namespace JvmAssembler

/-! ## Numbers -/

@[simp]
theorem length_bytes16 (n : UInt16) : (bytes16 n).length = 2 :=
  rfl

@[simp]
theorem length_bytes32 (n : UInt32) : (bytes32 n).length = 4 :=
  rfl

/-- The 16-bit number with these two bytes. -/
def word16 (high low : UInt8) : UInt16 :=
  (high.toNat * 256 + low.toNat).toUInt16

@[simp]
theorem word16_bytes (n : UInt16) : word16 (n >>> 8).toUInt8 n.toUInt8 = n := by
  apply UInt16.toNat_inj.mp
  have small := n.toNat_lt
  simp only [word16, UInt16.toNat_toUInt8, UInt16.toNat_shiftRight, Nat.toUInt16,
    UInt16.toNat_ofNat', UInt16.toNat_ofNat, Nat.shiftRight_eq_div_pow, Nat.reducePow,
    Nat.reduceMod]
  omega

theorem bytes16_inj {n m : UInt16} : bytes16 n = bytes16 m ↔ n = m := by
  constructor
  · intro same
    simp only [bytes16, List.cons.injEq, and_true] at same
    rw [← word16_bytes n, ← word16_bytes m, same.1, same.2]
  · rintro rfl
    rfl

theorem bytes32_inj {n m : UInt32} : bytes32 n = bytes32 m ↔ n = m := by
  constructor
  · intro same
    obtain ⟨high, low⟩ := List.append_inj same (by simp)
    have highNat := congrArg UInt16.toNat (bytes16_inj.mp high)
    have lowNat := congrArg UInt16.toNat (bytes16_inj.mp low)
    have := n.toNat_lt
    have := m.toNat_lt
    simp only [UInt32.toNat_toUInt16, UInt32.toNat_shiftRight, UInt32.toNat_ofNat,
      Nat.shiftRight_eq_div_pow, Nat.reducePow, Nat.reduceMod] at highNat lowNat
    apply UInt32.toNat_inj.mp
    omega
  · rintro rfl
    rfl

theorem bytes64_inj {n m : UInt64} : bytes64 n = bytes64 m ↔ n = m := by
  constructor
  · intro same
    obtain ⟨high, low⟩ := List.append_inj same (by simp)
    have highNat := congrArg UInt32.toNat (bytes32_inj.mp high)
    have lowNat := congrArg UInt32.toNat (bytes32_inj.mp low)
    have := n.toNat_lt
    have := m.toNat_lt
    simp only [UInt64.toNat_toUInt32, UInt64.toNat_shiftRight, UInt64.toNat_ofNat,
      Nat.shiftRight_eq_div_pow, Nat.reducePow, Nat.reduceMod] at highNat lowNat
    apply UInt64.toNat_inj.mp
    omega
  · rintro rfl
    rfl

/-! ## Codes that are read item by item -/

/-- The first of several coded items can be told from what follows it. -/
structure ReadsFirst {α β : Type} (Valid : α → Prop) (code : α → List β) : Prop where
  ne_nil : ∀ {a}, Valid a → code a ≠ []
  split : ∀ {a b rest rest'}, Valid a → Valid b → code a ++ rest = code b ++ rest' →
    a = b ∧ rest = rest'

namespace ReadsFirst

variable {α β : Type} {Valid : α → Prop} {code : α → List β}

/-- Lists of items that are read one by one have different codes. -/
theorem flatMap_inj (reads : ReadsFirst Valid code) {items others : List α}
    (validItems : ∀ a ∈ items, Valid a) (validOthers : ∀ a ∈ others, Valid a)
    (same : items.flatMap code = others.flatMap code) : items = others := by
  induction items generalizing others with
  | nil =>
      cases others with
      | nil => rfl
      | cons b others =>
          rw [List.flatMap_nil, List.flatMap_cons, eq_comm, List.append_eq_nil_iff] at same
          exact absurd same.1 (reads.ne_nil (validOthers b List.mem_cons_self))
  | cons a items ih =>
      cases others with
      | nil =>
          rw [List.flatMap_nil, List.flatMap_cons, List.append_eq_nil_iff] at same
          exact absurd same.1 (reads.ne_nil (validItems a List.mem_cons_self))
      | cons b others =>
          rw [List.forall_mem_cons] at validItems validOthers
          rw [List.flatMap_cons, List.flatMap_cons] at same
          obtain ⟨rfl, rest⟩ := reads.split validItems.1 validOthers.1 same
          rw [ih validItems.2 validOthers.2 rest]

end ReadsFirst

/-! ## Texts -/

namespace ModifiedUtf8

/-- Every unit has at most 16 bits. -/
theorem units_lt (c : Char) : ∀ unit ∈ units c, unit < 0x10000 := by
  intro unit member
  have valid := c.valid
  simp only [UInt32.isValidChar, Nat.isValidChar] at valid
  change c.toNat < _ ∨ _ < c.toNat ∧ c.toNat < _ at valid
  unfold units at member
  split at member
  · simp only [List.mem_singleton] at member
    omega
  · simp only [List.mem_cons, List.not_mem_nil, or_false] at member
    omega

/-- A character below the surrogates or above them is one unit, so a unit
between them announces a pair. -/
theorem units_readsFirst : ReadsFirst (fun _ => True) units where
  ne_nil := by
    intro c _
    unfold units
    split <;> simp
  split := by
    intro c d rest rest' _ _ same
    have validC := c.valid
    have validD := d.valid
    simp only [UInt32.isValidChar, Nat.isValidChar] at validC validD
    change c.toNat < _ ∨ _ < c.toNat ∧ c.toNat < _ at validC
    change d.toNat < _ ∨ _ < d.toNat ∧ d.toNat < _ at validD
    suffices parts : c.toNat = d.toNat ∧ rest = rest' from
      ⟨Char.toNat_inj.mp parts.1, parts.2⟩
    unfold units at same
    split at same <;> split at same <;>
      simp only [List.cons_append, List.nil_append, List.cons.injEq] at same
    · exact same
    · omega
    · omega
    · exact ⟨by omega, same.2.2⟩

/-- The first byte tells how many bytes a unit has. -/
theorem encodeUnit_readsFirst : ReadsFirst (· < 0x10000) encodeUnit where
  ne_nil := by
    intro unit _
    unfold encodeUnit
    split
    · simp
    · split <;> simp
  split := by
    intro u v rest rest' smallU smallV same
    have byte {n m : Nat} (small : n < 256) (small' : m < 256) :
        n.toUInt8 = m.toUInt8 ↔ n = m := by
      rw [← UInt8.toNat_inj]
      simp only [Nat.toUInt8, UInt8.toNat_ofNat']
      omega
    unfold encodeUnit at same
    simp only [Bool.and_eq_true, decide_eq_true_eq] at same
    split at same <;> split at same <;> (try split at same) <;> (try split at same) <;>
      simp only [List.cons_append, List.nil_append, List.cons.injEq] at same <;>
      simp (disch := omega) only [byte] at same <;>
      first
        | exact ⟨by omega, same.2⟩
        | exact ⟨by omega, same.2.2⟩
        | exact ⟨by omega, same.2.2.2⟩
        | omega

theorem encode_inj {text other : String} : encode text = encode other ↔ text = other := by
  constructor
  · intro same
    unfold encode at same
    rw [← List.flatMap_assoc, ← List.flatMap_assoc] at same
    have small (s : String) : ∀ unit ∈ s.toList.flatMap units, unit < 0x10000 := by
      intro unit member
      obtain ⟨c, _, of⟩ := List.mem_flatMap.mp member
      exact units_lt c unit of
    have sameUnits := encodeUnit_readsFirst.flatMap_inj (small text) (small other) same
    have sameChars := units_readsFirst.flatMap_inj (fun _ _ => trivial) (fun _ _ => trivial)
      sameUnits
    exact String.toList_inj.mp sameChars
  · rintro rfl
    rfl

end ModifiedUtf8

/-! ## Constants -/

namespace Constant

/-- Different constants have different bytes. -/
theorem toBytes_inj {constant other : Constant} :
    constant.toBytes = other.toBytes ↔ constant = other := by
  constructor
  · intro same
    obtain ⟨sameTag, samePayload⟩ := List.cons.inj same
    cases constant <;> cases other <;> simp only [tag] at sameTag <;>
      try exact absurd sameTag (by decide)
    case utf8.utf8 text text' =>
      have parts := List.append_inj samePayload (by simp)
      rw [ModifiedUtf8.encode_inj.mp parts.2]
    case integer.integer a b =>
      rw [show a = b from congrArg Int32.ofUInt32 (bytes32_inj.mp samePayload)]
    case float.float a b =>
      rw [show a = b from congrArg Binary32.mk (bytes32_inj.mp samePayload)]
    case long.long a b =>
      rw [show a = b from congrArg Int64.ofUInt64 (bytes64_inj.mp samePayload)]
    case double.double a b =>
      rw [show a = b from congrArg Binary64.mk (bytes64_inj.mp samePayload)]
    case cls.cls => rw [bytes16_inj.mp samePayload]
    case string.string => rw [bytes16_inj.mp samePayload]
    all_goals
      have parts := List.append_inj samePayload (by simp)
      rw [bytes16_inj.mp parts.1, bytes16_inj.mp parts.2]
  · rintro rfl
    rfl

end Constant

end JvmAssembler
