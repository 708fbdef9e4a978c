import Mathlib
import JvmAssembler.Proofs.Disassembly
import JvmAssembler.Proofs.PoolRuns

/-!
# Reading a serialized pool

A serialized pool is the number of the first free index and then the constants,
each a tag and its content.  It is read constant by constant until their indices
reach that number; `long` and `double` constants take two of them.  A text is
read by its length in bytes, which are grouped into 16-bit units and these into
characters.

The length of a text has 16 bits, and a longer text is written with its length
cut.  Main statement: reading a serialized pool gives its constants back exactly
if none of its texts is too long.
-/

namespace JvmAssembler

/-! ## Texts -/

namespace ModifiedUtf8

/-- A byte that goes on with a unit. -/
def Continues (b : UInt8) : Prop :=
  0x80 ≤ b.toNat ∧ b.toNat ≤ 0xbf

instance (b : UInt8) : Decidable (Continues b) :=
  inferInstanceAs (Decidable (0x80 ≤ b.toNat ∧ b.toNat ≤ 0xbf))

/-- The unit with these two bytes. -/
def twoByteUnit (a b : UInt8) : Nat :=
  (a.toNat - 0xc0) * 0x40 + (b.toNat - 0x80)

/-- The unit with these three bytes. -/
def threeByteUnit (a b c : UInt8) : Nat :=
  (a.toNat - 0xe0) * 0x1000 + (b.toNat - 0x80) * 0x40 + (c.toNat - 0x80)

/-- The units of some bytes.  The first byte of a unit tells how many there are;
no unit begins with a zero byte or a byte above `0xef`. -/
def units? : List UInt8 → Option (List Nat)
  | [] => some []
  | a :: rest =>
      if 0x01 ≤ a.toNat ∧ a.toNat ≤ 0x7f then (units? rest).map (a.toNat :: ·)
      else if 0xc0 ≤ a.toNat ∧ a.toNat ≤ 0xdf then
        match rest with
        | b :: rest =>
            if Continues b then (units? rest).map (twoByteUnit a b :: ·) else none
        | [] => none
      else if 0xe0 ≤ a.toNat ∧ a.toNat ≤ 0xef then
        match rest with
        | b :: c :: rest =>
            if Continues b ∧ Continues c then (units? rest).map (threeByteUnit a b c :: ·)
            else none
        | _ => none
      else none

/-- The character with these surrogates. -/
def pairChar (high low : Nat) : Char :=
  Char.ofNat (0x10000 + (high - 0xd800) * 0x400 + (low - 0xdc00))

/-- The characters of some units: a unit that is no surrogate, or a high surrogate
with a low one. -/
def chars? : List Nat → Option (List Char)
  | [] => some []
  | u :: rest =>
      if u < 0xd800 ∨ 0xe000 ≤ u then (chars? rest).map (Char.ofNat u :: ·)
      else
        match rest with
        | v :: rest =>
            if u < 0xdc00 ∧ 0xdc00 ≤ v ∧ v < 0xe000 then (chars? rest).map (pairChar u v :: ·)
            else none
        | [] => none

/-- The text with these bytes. -/
def decode? (bytes : List UInt8) : Option String := do
  let chars ← chars? (← units? bytes)
  return String.ofList chars

theorem decode?_eq_some_iff {bytes : List UInt8} {text : String} :
    decode? bytes = some text ↔
      ∃ us, units? bytes = some us ∧ chars? us = some text.toList := by
  simp only [decode?, Option.bind_eq_bind, Option.bind_eq_some_iff, Option.pure_def,
    Option.some.injEq]
  constructor
  · rintro ⟨us, read, chars, readChars, rfl⟩
    exact ⟨us, read, by rw [readChars, String.toList_ofList]⟩
  · rintro ⟨us, read, readChars⟩
    exact ⟨us, read, text.toList, readChars, String.ofList_toList⟩

theorem units?_one {a : UInt8} (first : 0x01 ≤ a.toNat ∧ a.toNat ≤ 0x7f) (rest : List UInt8) :
    units? (a :: rest) = (units? rest).map (a.toNat :: ·) := by
  rw [units?.eq_def]
  exact if_pos first

theorem units?_two {a b : UInt8} (first : 0xc0 ≤ a.toNat ∧ a.toNat ≤ 0xdf) (second : Continues b)
    (rest : List UInt8) :
    units? (a :: b :: rest) = (units? rest).map (twoByteUnit a b :: ·) := by
  rw [units?, if_neg (by omega), if_pos first]
  exact if_pos second

theorem units?_three {a b c : UInt8} (first : 0xe0 ≤ a.toNat ∧ a.toNat ≤ 0xef)
    (others : Continues b ∧ Continues c) (rest : List UInt8) :
    units? (a :: b :: c :: rest) = (units? rest).map (threeByteUnit a b c :: ·) := by
  rw [units?, if_neg (by omega), if_neg (by omega), if_pos first]
  exact if_pos others

theorem chars?_one {u : Nat} (single : u < 0xd800 ∨ 0xe000 ≤ u) (rest : List Nat) :
    chars? (u :: rest) = (chars? rest).map (Char.ofNat u :: ·) := by
  rw [chars?.eq_def]
  exact if_pos single

theorem chars?_two {u v : Nat} (high : ¬(u < 0xd800 ∨ 0xe000 ≤ u))
    (pair : u < 0xdc00 ∧ 0xdc00 ≤ v ∧ v < 0xe000) (rest : List Nat) :
    chars? (u :: v :: rest) = (chars? rest).map (pairChar u v :: ·) := by
  rw [chars?, if_neg high]
  exact if_pos pair

/-! ### Reading in parts -/

theorem units?_append {bytes : List UInt8} {us : List Nat} (read : units? bytes = some us)
    (more : List UInt8) : units? (bytes ++ more) = (units? more).map (us ++ ·) := by
  fun_induction units? bytes generalizing us with
  | case1 =>
      cases read
      simp
  | case2 a rest one ih =>
      obtain ⟨others, readRest, rfl⟩ := Option.map_eq_some_iff.mp read
      rw [List.cons_append, units?_one one, ih readRest, Option.map_map]
      rfl
  | case3 a _ two b rest second ih =>
      obtain ⟨others, readRest, rfl⟩ := Option.map_eq_some_iff.mp read
      rw [List.cons_append, List.cons_append, units?_two two second, ih readRest, Option.map_map]
      rfl
  | case6 a _ _ three b c rest following ih =>
      obtain ⟨others, readRest, rfl⟩ := Option.map_eq_some_iff.mp read
      rw [List.cons_append, List.cons_append, List.cons_append, units?_three three following,
        ih readRest, Option.map_map]
      rfl
  | case4 | case5 | case7 | case8 | case9 => contradiction

theorem chars?_append {us : List Nat} {chars : List Char} (read : chars? us = some chars)
    (more : List Nat) : chars? (us ++ more) = (chars? more).map (chars ++ ·) := by
  fun_induction chars? us generalizing chars with
  | case1 =>
      cases read
      simp
  | case2 u rest single ih =>
      obtain ⟨others, readRest, rfl⟩ := Option.map_eq_some_iff.mp read
      rw [List.cons_append, chars?_one single, ih readRest, Option.map_map]
      rfl
  | case3 u surrogate v rest pair ih =>
      obtain ⟨others, readRest, rfl⟩ := Option.map_eq_some_iff.mp read
      rw [List.cons_append, List.cons_append, chars?_two surrogate pair, ih readRest,
        Option.map_map]
      rfl
  | case4 | case5 => contradiction

theorem eq_nil_of_units? {bytes : List UInt8} (read : units? bytes = some []) : bytes = [] := by
  fun_induction units? bytes with
  | case1 => rfl
  | case2 | case3 | case6 => simp at read
  | case4 | case5 | case7 | case8 | case9 => contradiction

theorem eq_nil_of_chars? {us : List Nat} (read : chars? us = some []) : us = [] := by
  fun_induction chars? us with
  | case1 => rfl
  | case2 | case3 => simp at read
  | case4 | case5 => contradiction

/-- No proper beginning of some bytes has the same text. -/
theorem eq_nil_of_decode?_append {bytes more : List UInt8} {text : String}
    (read : decode? bytes = some text) (same : decode? (bytes ++ more) = some text) :
    more = [] := by
  obtain ⟨us, readUnits, readChars⟩ := decode?_eq_some_iff.mp read
  obtain ⟨all, readAll, allChars⟩ := decode?_eq_some_iff.mp same
  rw [units?_append readUnits] at readAll
  obtain ⟨others, readMore, rfl⟩ := Option.map_eq_some_iff.mp readAll
  rw [chars?_append readChars] at allChars
  obtain ⟨chars, moreChars, appended⟩ := Option.map_eq_some_iff.mp allChars
  obtain rfl : chars = [] := by simpa using appended
  obtain rfl := eq_nil_of_chars? moreChars
  exact eq_nil_of_units? readMore

/-! ### Reading what was written -/

theorem toNat_toUInt8 {n : Nat} (fits : n < 256) : n.toUInt8.toNat = n := by
  rw [Nat.toUInt8, UInt8.toNat_ofNat', Nat.mod_eq_of_lt fits]

/-- The three forms of a unit: what its bytes are as numbers. -/
theorem encodeUnit_cases {unit : Nat} (small : unit < 0x10000) :
    (∃ a : UInt8, encodeUnit unit = [a] ∧ a.toNat = unit ∧ 0x01 ≤ unit ∧ unit ≤ 0x7f) ∨
      (∃ a b : UInt8, encodeUnit unit = [a, b] ∧ a.toNat = 0xc0 + unit / 0x40 ∧
        b.toNat = 0x80 + unit % 0x40 ∧ unit ≤ 0x7ff) ∨
      ∃ a b c : UInt8, encodeUnit unit = [a, b, c] ∧ a.toNat = 0xe0 + unit / 0x1000 ∧
        b.toNat = 0x80 + unit / 0x40 % 0x40 ∧ c.toNat = 0x80 + unit % 0x40 := by
  unfold encodeUnit
  split
  · rename_i one
    simp only [Bool.and_eq_true, decide_eq_true_eq] at one
    exact .inl ⟨_, rfl, toNat_toUInt8 (by omega), one⟩
  · split
    · exact .inr (.inl ⟨_, _, rfl, toNat_toUInt8 (by omega), toNat_toUInt8 (by omega),
        by assumption⟩)
    · exact .inr (.inr ⟨_, _, _, rfl, toNat_toUInt8 (by omega), toNat_toUInt8 (by omega),
        toNat_toUInt8 (by omega)⟩)

theorem units?_encodeUnit {unit : Nat} (small : unit < 0x10000) (rest : List UInt8) :
    units? (encodeUnit unit ++ rest) = (units? rest).map (unit :: ·) := by
  rcases encodeUnit_cases small with
    ⟨a, bytes, first, one⟩ | ⟨a, b, bytes, first, second, two⟩ |
      ⟨a, b, c, bytes, first, second, third⟩
  · rw [bytes, List.singleton_append, units?_one (by omega), first]
  · have value : twoByteUnit a b = unit := by
      unfold twoByteUnit
      omega
    have follows : Continues b := by
      unfold Continues
      omega
    rw [bytes, List.cons_append, List.singleton_append, units?_two (by omega) follows, value]
  · have value : threeByteUnit a b c = unit := by
      unfold threeByteUnit
      omega
    have follows : Continues b ∧ Continues c := by
      unfold Continues
      omega
    rw [bytes, List.cons_append, List.cons_append, List.singleton_append,
      units?_three (by omega) follows, value]

theorem chars?_units (c : Char) (rest : List Nat) :
    chars? (units c ++ rest) = (chars? rest).map (c :: ·) := by
  have valid : c.toNat < 0xd800 ∨ 0xdfff < c.toNat ∧ c.toNat < 0x110000 := c.valid
  unfold units
  split
  · rw [List.singleton_append, chars?_one (by omega), Char.ofNat_toNat]
  · have same : pairChar (0xd800 + (c.toNat - 0x10000) / 0x400)
        (0xdc00 + (c.toNat - 0x10000) % 0x400) = c := by
      have number : 0x10000 + (0xd800 + (c.toNat - 0x10000) / 0x400 - 0xd800) * 0x400 +
          (0xdc00 + (c.toNat - 0x10000) % 0x400 - 0xdc00) = c.toNat := by omega
      rw [pairChar, number, Char.ofNat_toNat]
    rw [List.cons_append, List.singleton_append, chars?_two (by omega) (by omega), same]

theorem units?_encode (us : List Nat) (small : ∀ unit ∈ us, unit < 0x10000) :
    units? (us.flatMap encodeUnit) = some us := by
  induction us with
  | nil => rfl
  | cons unit rest ih =>
      rw [List.forall_mem_cons] at small
      rw [List.flatMap_cons, units?_encodeUnit small.1, ih small.2, Option.map_some]

theorem chars?_flatMap_units (chars : List Char) : chars? (chars.flatMap units) = some chars := by
  induction chars with
  | nil => rfl
  | cons c rest ih => rw [List.flatMap_cons, chars?_units, ih, Option.map_some]

/-- Every text can be read back from its bytes. -/
theorem decode?_encode (text : String) : decode? (encode text) = some text := by
  refine decode?_eq_some_iff.mpr ⟨text.toList.flatMap units, ?_, chars?_flatMap_units _⟩
  rw [encode, ← List.flatMap_assoc]
  refine units?_encode _ fun unit mem => ?_
  obtain ⟨c, -, isUnit⟩ := List.mem_flatMap.mp mem
  exact units_lt c unit isUnit

/-- No byte of a text is zero or above `0xef`. -/
theorem byte_of_encode {text : String} {b : UInt8} (mem : b ∈ encode text) : b ≠ 0 ∧ b ≤ 0xef := by
  simp only [encode, List.mem_flatMap] at mem
  obtain ⟨c, -, unit, isUnit, mem⟩ := mem
  have small := units_lt c unit isUnit
  suffices bounds : 1 ≤ b.toNat ∧ b.toNat ≤ 0xef by
    refine ⟨?_, UInt8.le_iff_toNat_le.mpr bounds.2⟩
    rintro rfl
    exact absurd bounds.1 (by decide)
  rcases encodeUnit_cases small with
    ⟨a, bytes, first, one⟩ | ⟨a, b, bytes, first, second, two⟩ |
      ⟨a, b, c, bytes, first, second, third⟩ <;>
    simp only [bytes, List.mem_cons, List.not_mem_nil, or_false] at mem
  · subst mem
    omega
  · rcases mem with rfl | rfl <;> omega
  · rcases mem with rfl | rfl | rfl <;> omega

end ModifiedUtf8

/-! ## Constants -/

open MachineInstr (next16? next16?_append)

/-- The 32-bit number with these halves. -/
def word32 (high low : UInt16) : UInt32 :=
  (high.toNat * 0x10000 + low.toNat).toUInt32

/-- The 64-bit number with these halves. -/
def word64 (high low : UInt32) : UInt64 :=
  (high.toNat * 0x100000000 + low.toNat).toUInt64

@[simp]
theorem word32_halves (n : UInt32) : word32 (n >>> 16).toUInt16 n.toUInt16 = n := by
  apply UInt32.toNat_inj.mp
  have small := n.toNat_lt
  simp only [word32, UInt32.toNat_toUInt16, UInt32.toNat_shiftRight, Nat.toUInt32,
    UInt32.toNat_ofNat', UInt32.toNat_ofNat, Nat.shiftRight_eq_div_pow, Nat.reducePow,
    Nat.reduceMod]
  omega

@[simp]
theorem word64_halves (n : UInt64) : word64 (n >>> 32).toUInt32 n.toUInt32 = n := by
  apply UInt64.toNat_inj.mp
  have small := n.toNat_lt
  simp only [word64, UInt64.toNat_toUInt32, UInt64.toNat_shiftRight, Nat.toUInt64,
    UInt64.toNat_ofNat', UInt64.toNat_ofNat, Nat.shiftRight_eq_div_pow, Nat.reducePow,
    Nat.reduceMod]
  omega

/-- Read a 32-bit number. -/
def next32? (bytes : List UInt8) : Option (UInt32 × List UInt8) := do
  let (high, rest) ← next16? bytes
  let (low, rest) ← next16? rest
  return (word32 high low, rest)

/-- Read a 64-bit number. -/
def next64? (bytes : List UInt8) : Option (UInt64 × List UInt8) := do
  let (high, rest) ← next32? bytes
  let (low, rest) ← next32? rest
  return (word64 high low, rest)

@[simp]
theorem next32?_append (n : UInt32) (rest : List UInt8) :
    next32? (bytes32 n ++ rest) = some (n, rest) := by
  simp [next32?, bytes32]

@[simp]
theorem next64?_append (n : UInt64) (rest : List UInt8) :
    next64? (bytes64 n ++ rest) = some (n, rest) := by
  simp [next64?, bytes64]

namespace Constant

/-- Read a text by its length. -/
def readText? (bytes : List UInt8) : Option (Constant × List UInt8) := do
  let (length, rest) ← next16? bytes
  if rest.length < length.toNat then none
  else
    let text ← ModifiedUtf8.decode? (rest.take length.toNat)
    return (.utf8 text, rest.drop length.toNat)

/-- Read two indices. -/
def readPair? (make : UInt16 → UInt16 → Constant) (bytes : List UInt8) :
    Option (Constant × List UInt8) := do
  let (a, rest) ← next16? bytes
  let (b, rest) ← next16? rest
  return (make a b, rest)

/-- Read the content of a constant with this tag. -/
def readPayload? (tag : UInt8) (bytes : List UInt8) : Option (Constant × List UInt8) :=
  match tag with
  | 1 => readText? bytes
  | 3 => (next32? bytes).map fun (n, rest) => (.integer n.toInt32, rest)
  | 4 => (next32? bytes).map fun (n, rest) => (.float ⟨n⟩, rest)
  | 5 => (next64? bytes).map fun (n, rest) => (.long n.toInt64, rest)
  | 6 => (next64? bytes).map fun (n, rest) => (.double ⟨n⟩, rest)
  | 7 => (next16? bytes).map fun (index, rest) => (.cls index, rest)
  | 8 => (next16? bytes).map fun (index, rest) => (.string index, rest)
  | 9 => readPair? .fieldRef bytes
  | 10 => readPair? .methodRef bytes
  | 11 => readPair? .interfaceMethodRef bytes
  | 12 => readPair? .nameAndType bytes
  | _ => none

/-- The first constant of some bytes, and the bytes after it. -/
def read? : List UInt8 → Option (Constant × List UInt8)
  | [] => none
  | tag :: bytes => readPayload? tag bytes

/-- The constant is not a text whose length takes more than 16 bits. -/
def LengthFits (constant : Constant) : Prop :=
  ∀ text, constant = .utf8 text → (ModifiedUtf8.encode text).length ≤ 65535

theorem readText?_append {text : String} (fits : (ModifiedUtf8.encode text).length ≤ 65535)
    (rest : List UInt8) :
    readText? (payload (.utf8 text) ++ rest) = some (.utf8 text, rest) := by
  have length : (ModifiedUtf8.encode text).length.toUInt16.toNat =
      (ModifiedUtf8.encode text).length := by
    rw [Nat.toUInt16, UInt16.toNat_ofNat', Nat.mod_eq_of_lt (by omega)]
  simp [readText?, payload, length, ModifiedUtf8.decode?_encode]

/-- The bytes of a text that is too long hold the text in more bytes than the
length says. -/
theorem length_le_of_readText? {text : String} {rest after : List UInt8}
    (read : readText? (payload (.utf8 text) ++ rest) = some (.utf8 text, after)) :
    (ModifiedUtf8.encode text).length ≤ 65535 := by
  by_contra long
  have short : (ModifiedUtf8.encode text).length.toUInt16.toNat <
      (ModifiedUtf8.encode text).length := by
    have := (ModifiedUtf8.encode text).length.toUInt16.toNat_lt
    omega
  rw [readText?, payload, List.append_assoc, next16?_append, Option.bind_eq_bind,
    Option.bind_some] at read
  dsimp only at read
  rw [if_neg (by rw [List.length_append]; omega), Option.bind_eq_bind, Option.bind_eq_some_iff,
    List.take_append_of_le_length short.le] at read
  obtain ⟨cut, readCut, same⟩ := read
  obtain rfl : cut = text := by
    simp only [Option.pure_def, Option.some.injEq, Prod.mk.injEq, utf8.injEq] at same
    exact same.1
  have none := ModifiedUtf8.eq_nil_of_decode?_append readCut
    (by rw [List.take_append_drop, ModifiedUtf8.decode?_encode])
  rw [List.drop_eq_nil_iff] at none
  omega

/-- A constant is read back from its bytes, whatever follows them. -/
theorem read?_append {constant : Constant} (fits : constant.LengthFits) (rest : List UInt8) :
    read? (constant.toBytes ++ rest) = some (constant, rest) := by
  cases constant with
  | utf8 text => exact readText?_append (fits text rfl) rest
  | _ => simp [toBytes, tag, payload, read?, readPayload?, readPair?]

theorem lengthFits_of_read? {constant : Constant} {rest after : List UInt8}
    (read : read? (constant.toBytes ++ rest) = some (constant, after)) : constant.LengthFits := by
  rintro text rfl
  exact length_le_of_readText? read

/-- Read the constants that take the indices from `index` up to `count`. -/
def readAll? (index count : Nat) (bytes : List UInt8) : Option (List Constant × List UInt8) :=
  if index < count then do
    let (constant, rest) ← read? bytes
    let (others, rest) ← readAll? (index + constant.width) count rest
    return (constant :: others, rest)
  else some ([], bytes)
  termination_by count - index
  decreasing_by
    have := constant.width_pos
    omega

theorem readAll?_eq_some_iff (index : Nat) (constants : List Constant) :
    readAll? index (index + totalWidth constants) (constants.flatMap toBytes) =
        some (constants, []) ↔
      ∀ constant ∈ constants, constant.LengthFits := by
  induction constants generalizing index with
  | nil =>
      rw [readAll?]
      simp [totalWidth]
  | cons first rest ih =>
      have width := first.width_pos
      have total : index + totalWidth (first :: rest) =
          index + first.width + totalWidth rest := by
        simp only [totalWidth, List.map_cons, List.sum_cons]
        omega
      rw [readAll?, if_pos (by omega), total, List.flatMap_cons, List.forall_mem_cons]
      constructor
      · intro read
        simp only [Option.bind_eq_bind, Option.bind_eq_some_iff, Option.pure_def,
          Option.some.injEq, Prod.mk.injEq, List.cons.injEq, Prod.exists] at read
        obtain ⟨constant, after, readFirst, others, last, readRest, ⟨rfl, rfl⟩, rfl⟩ := read
        have fits := lengthFits_of_read? readFirst
        rw [read?_append fits] at readFirst
        obtain ⟨-, rfl⟩ := Prod.mk.inj (Option.some.inj readFirst)
        exact ⟨fits, (ih _).mp readRest⟩
      · rintro ⟨fits, restFit⟩
        have readRest := (ih (index + first.width)).mpr restFit
        simp [read?_append fits, readRest]

end Constant

/-! ## Pools -/

namespace ConstantPool

/-- Read a pool: its constants, and the bytes after it. -/
def parse? (bytes : List UInt8) : Option (List Constant × List UInt8) := do
  let (count, rest) ← next16? bytes
  Constant.readAll? 1 count.toNat rest

theorem parse?_toBytes {pool : ConstantPool} (indexed : pool.Indexed) :
    parse? pool.toBytes =
      Constant.readAll? 1 (1 + Constant.totalWidth pool.constants.toList)
        (pool.constants.toList.flatMap Constant.toBytes) := by
  have count : pool.count.toUInt16.toNat = 1 + Constant.totalWidth pool.constants.toList := by
    have := indexed.count_le
    rw [Nat.toUInt16, UInt16.toNat_ofNat', Nat.mod_eq_of_lt (by omega), indexed.count_eq]
  rw [parse?, toBytes, next16?_append, Option.bind_eq_bind, Option.bind_some, ← count]

/-- After any requests, a serialized pool can be read back exactly if the length
of each of its texts fits; the bytes of any text can be read back, and are never
zero or above `0xef`. -/
theorem parses_back_iff {start : ConstantPool} (empty : start = .new ∨ start = .blank)
    (requests : List PoolRequest) :
    (parse? (start.serve requests).toBytes =
          some ((start.serve requests).constants.toList, []) ↔
        ∀ text, .utf8 text ∈ (start.serve requests).constants.toList →
          (ModifiedUtf8.encode text).length ≤ 65535) ∧
      ∀ text, ModifiedUtf8.decode? (ModifiedUtf8.encode text) = some text ∧
        ∀ b ∈ ModifiedUtf8.encode text, b ≠ 0 ∧ b ≤ 0xef := by
  have sound : Sound False start := by
    rcases empty with rfl | rfl
    · exact sound_new
    · exact sound_blank
  have indexed : (start.serve requests).Indexed := (sound_of_serve sound False.elim).toIndexed
  refine ⟨?_, fun text => ⟨ModifiedUtf8.decode?_encode text, fun b => ModifiedUtf8.byte_of_encode⟩⟩
  rw [parse?_toBytes indexed, Constant.readAll?_eq_some_iff]
  constructor
  · intro fits text mem
    exact fits _ mem text rfl
  · rintro fits constant mem text rfl
    exact fits text mem

end ConstantPool

/-- A pool with a wide constant is read back, no byte being left. -/
theorem Sample.mixedRequests_parsed :
    (∀ text, .utf8 text ∈ (ConstantPool.blank.serve mixedRequests).constants.toList →
        (ModifiedUtf8.encode text).length ≤ 65535) ∧
      ConstantPool.parse? (ConstantPool.blank.serve mixedRequests).toBytes =
        some ((ConstantPool.blank.serve mixedRequests).constants.toList, []) := by
  have fits : ∀ text, .utf8 text ∈ (ConstantPool.blank.serve mixedRequests).constants.toList →
      (ModifiedUtf8.encode text).length ≤ 65535 := by
    have constants : (ConstantPool.blank.serve mixedRequests).constants.toList =
        [.long 7, .utf8 "Demo", .cls 3, .utf8 "f", .utf8 "(I)J", .nameAndType 5 6,
          .methodRef 4 7, .string 5] := by decide +kernel
    intro text mem
    simp only [constants, List.mem_cons, Constant.utf8.injEq, reduceCtorEq, List.not_mem_nil,
      false_or, or_false] at mem
    rcases mem with rfl | rfl | rfl <;> decide +kernel
  exact ⟨fits, (ConstantPool.parses_back_iff (.inr rfl) mixedRequests).1.mpr fits⟩

end JvmAssembler
