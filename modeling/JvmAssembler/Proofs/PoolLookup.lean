import Mathlib
import JvmAssembler.Proofs.ConstantBytes
import JvmAssembler.Proofs.Sequencing

/-!
# Reading a constant pool

A pool is read by index: indices count from one, and a constant takes as many
of them as it is wide.  Constants that refer to others are read by following
their indices, which gives the class names, literals and member references that
instructions name.

Pools are built by adding constants to an empty pool.  In such a pool the index
that `add` answers always stands for the constant that was asked for, also when
an earlier one is shared, and no later addition changes what an index stands
for.
-/

namespace JvmAssembler

namespace Constant

/-- Number of indices that constants take together. -/
def totalWidth (constants : List Constant) : Nat :=
  (constants.map width).sum

/-- The constant at an index, in constants that take indices from `start` on. -/
def find? (start : Nat) : List Constant → Nat → Option Constant
  | [], _ => none
  | constant :: rest, index =>
      if index = start then some constant else find? (start + constant.width) rest index

theorem width_pos (constant : Constant) : 0 < constant.width := by
  unfold width
  split <;> decide

/-- What stands before added constants stays where it is. -/
theorem find?_append {start index : Nat} {constants : List Constant} {constant : Constant}
    (found : find? start constants index = some constant) (added : List Constant) :
    find? start (constants ++ added) index = some constant := by
  induction constants generalizing start with
  | nil => simp [find?] at found
  | cons first rest ih =>
      rw [List.cons_append, find?]
      rw [find?] at found
      split
      · simpa [*] using found
      · rename_i other
        rw [if_neg other] at found
        exact ih found

/-- The index after all constants is that of the next one. -/
theorem find?_append_self (start : Nat) (constants : List Constant) (constant : Constant) :
    find? start (constants ++ [constant]) (start + totalWidth constants) = some constant := by
  induction constants generalizing start with
  | nil => simp [find?, totalWidth]
  | cons first rest ih =>
      have later : start + totalWidth (first :: rest) ≠ start := by
        have := first.width_pos
        simp only [totalWidth, List.map_cons, List.sum_cons]
        omega
      have next := ih (start + first.width)
      rw [List.cons_append, find?, if_neg later]
      rwa [Nat.add_assoc] at next

end Constant

/-! ## What an index stands for -/

/-- The three kinds of member constants. -/
inductive RefKind where
  | field
  | method
  | interfaceMethod
  deriving DecidableEq

/-- A field or method as the pool names it. -/
structure SymbolicRef where
  kind : RefKind
  /-- Internal name of the class that has the member. -/
  owner : String
  name : String
  descriptor : String
  deriving DecidableEq

/-- The kind of a member constant, with the indices of its owner and of its name
and type. -/
def Constant.refParts? : Constant → Option (RefKind × UInt16 × UInt16)
  | .fieldRef owner pair => some (.field, owner, pair)
  | .methodRef owner pair => some (.method, owner, pair)
  | .interfaceMethodRef owner pair => some (.interfaceMethod, owner, pair)
  | _ => none

/-- The kind of constant that names a member. -/
def MemberRef.kind (ref : MemberRef) : RefKind :=
  if ref.isField then .field else if ref.isInterface then .interfaceMethod else .method

/-- The descriptor of a member in the class `this`: that of a field's type or of
a method's signature. -/
def MemberRef.descriptor (this : ClassHandle) (ref : MemberRef) : Except Error String :=
  if ref.isField then ref.signature.result.descriptor this else ref.signature.descriptor this

/-- The reference by which the class `this` names a member. -/
def MemberRef.symbolic (this : ClassHandle) (ref : MemberRef) : Except Error SymbolicRef := do
  let owner ← ref.owner.internalName this
  let descriptor ← ref.descriptor this
  return { kind := ref.kind, owner, name := ref.name, descriptor }

namespace ConstantPool

/-- The constant at an index. -/
def get? (pool : ConstantPool) (index : UInt16) : Option Constant :=
  Constant.find? 1 pool.constants.toList index.toNat

/-- The text at an index. -/
def text? (pool : ConstantPool) (index : UInt16) : Option String :=
  match pool.get? index with
  | some (.utf8 text) => some text
  | _ => none

/-- The name in the class constant at an index. -/
def className? (pool : ConstantPool) (index : UInt16) : Option String :=
  match pool.get? index with
  | some (.cls name) => pool.text? name
  | _ => none

/-- The literal that a load of the constant at an index gives. -/
def literal? (pool : ConstantPool) (index : UInt16) : Option Literal :=
  match pool.get? index with
  | some (.integer value) => some (.int value)
  | some (.long value) => some (.long value)
  | some (.float value) => some (.float value)
  | some (.double value) => some (.double value)
  | some (.string text) => (pool.text? text).map .string
  | _ => none

/-- The name and the descriptor in the constant at an index. -/
def nameAndType? (pool : ConstantPool) (index : UInt16) : Option (String × String) :=
  match pool.get? index with
  | some (.nameAndType name descriptor) => do
      return (← pool.text? name, ← pool.text? descriptor)
  | _ => none

/-- The member that the member constant at an index names. -/
def member? (pool : ConstantPool) (index : UInt16) : Option SymbolicRef := do
  let (kind, ownerIndex, pairIndex) ← (pool.get? index).bind Constant.refParts?
  let owner ← pool.className? ownerIndex
  let (name, descriptor) ← pool.nameAndType? pairIndex
  return { kind, owner, name, descriptor }

/-! ## Pools that additions build -/

/-- A pool that additions built from an empty one. -/
inductive Reachable : ConstantPool → Prop where
  | new : Reachable .new
  | blank : Reachable .blank
  | add {pool after : ConstantPool} {constant : Constant} {index : UInt16} :
      Reachable pool → add constant pool = .ok index after → Reachable after

/-- The next index follows the constants, and the index of bytes stands for the
constant with these bytes. -/
structure Indexed (pool : ConstantPool) : Prop where
  count_eq : pool.count = 1 + Constant.totalWidth pool.constants.toList
  count_le : pool.count ≤ 65535
  known : ∀ {key : List UInt8} {index : UInt16}, pool.index[key]? = some index →
    ∃ constant, constant.toBytes = key ∧ pool.get? index = some constant

/-- Every index keeps its meaning from one pool to a later one. -/
structure Extends (pool after : ConstantPool) : Prop where
  indexed : pool.Indexed → after.Indexed
  get? : ∀ {index : UInt16} {constant : Constant}, pool.get? index = some constant →
    after.get? index = some constant

namespace Extends

variable {pool middle after : ConstantPool} {index : UInt16}

theorem refl (pool : ConstantPool) : pool.Extends pool :=
  ⟨id, id⟩

theorem trans (first : pool.Extends middle) (second : middle.Extends after) :
    pool.Extends after :=
  ⟨second.indexed ∘ first.indexed, second.get? ∘ first.get?⟩

theorem text? {text : String} (grown : pool.Extends after) (found : pool.text? index = some text) :
    after.text? index = some text := by
  unfold ConstantPool.text? at found ⊢
  split at found
  · rename_i here
    rw [grown.get? here]
    exact found
  · contradiction

theorem className? {name : String} (grown : pool.Extends after)
    (found : pool.className? index = some name) : after.className? index = some name := by
  unfold ConstantPool.className? at found ⊢
  split at found
  · rename_i here
    rw [grown.get? here]
    exact grown.text? found
  · contradiction

theorem literal? {literal : Literal} (grown : pool.Extends after)
    (found : pool.literal? index = some literal) : after.literal? index = some literal := by
  unfold ConstantPool.literal? at found ⊢
  split at found <;> first | contradiction | skip
  case h_5 here =>
    obtain ⟨text, read, rfl⟩ := Option.map_eq_some_iff.mp found
    simp [grown.get? here, grown.text? read]
  all_goals
    rename_i here
    rw [grown.get? here]
    exact found

theorem nameAndType? {pair : String × String} (grown : pool.Extends after)
    (found : pool.nameAndType? index = some pair) : after.nameAndType? index = some pair := by
  unfold ConstantPool.nameAndType? at found ⊢
  split at found
  · rename_i here
    simp only [Option.bind_eq_bind, Option.bind_eq_some_iff] at found
    obtain ⟨name, nameAt, descriptor, descriptorAt, built⟩ := found
    simp [grown.get? here, grown.text? nameAt, grown.text? descriptorAt, ← built]
  · contradiction

theorem member? {reference : SymbolicRef} (grown : pool.Extends after)
    (found : pool.member? index = some reference) : after.member? index = some reference := by
  simp only [ConstantPool.member?, Option.bind_eq_bind, Option.bind_eq_some_iff] at found
  obtain ⟨parts, ⟨constant, here, isReference⟩, owner, ownerAt, pair, pairAt, built⟩ := found
  simp [ConstantPool.member?, grown.get? here, isReference, grown.className? ownerAt,
    grown.nameAndType? pairAt, ← built]

end Extends

/-! ## Additions -/

variable {pool after : ConstantPool} {index : UInt16}

theorem lift_eq_ok {α : Type} {result : Except Error α} {a : α} :
    lift result pool = .ok a after ↔ result = .ok a ∧ pool = after := by
  cases result <;> simp [lift]

/-- An addition finds the bytes of its constant, or appends the constant. -/
theorem add_cases {constant : Constant} (added : add constant pool = .ok index after) :
    (pool.index[constant.toBytes]? = some index ∧ after = pool) ∨
      (pool.count + constant.width ≤ 65535 ∧ index = pool.count.toUInt16 ∧
        after =
          { constants := pool.constants.push constant
            index := pool.index.insert constant.toBytes index
            next := pool.count + constant.width }) := by
  unfold add at added
  dsimp only at added
  split at added
  · rename_i found
    simp only [EStateM.Result.ok.injEq] at added
    exact .inl ⟨by rw [found, added.1], added.2.symm⟩
  · split at added
    · contradiction
    · simp only [EStateM.Result.ok.injEq] at added
      obtain ⟨rfl, rfl⟩ := added
      exact .inr ⟨by omega, rfl, rfl⟩

/-- Appending a constant gives it the next index. -/
theorem get?_append (indexed : pool.Indexed) (constant : Constant)
    (index : Std.TreeMap (List UInt8) UInt16) (next : Nat) :
    get? { constants := pool.constants.push constant, index, next } pool.count.toUInt16 =
      some constant := by
  have small : pool.count.toUInt16.toNat = 1 + Constant.totalWidth pool.constants.toList := by
    rw [Nat.toUInt16, UInt16.toNat_ofNat', Nat.mod_eq_of_lt, indexed.count_eq]
    have := indexed.count_le
    omega
  rw [get?, small, Array.toList_push]
  exact Constant.find?_append_self 1 _ constant

theorem extends_of_add {constant : Constant} (added : add constant pool = .ok index after) :
    pool.Extends after := by
  rcases add_cases added with ⟨_, rfl⟩ | ⟨fits, rfl, rfl⟩
  · exact .refl _
  · have kept {i : UInt16} {c : Constant} (found : pool.get? i = some c) :
        get?
          { constants := pool.constants.push constant
            index := pool.index.insert constant.toBytes pool.count.toUInt16
            next := pool.count + constant.width } i = some c := by
      rw [get?, Array.toList_push]
      exact Constant.find?_append found [constant]
    refine ⟨fun indexed => ⟨?_, ?_, ?_⟩, kept⟩
    · have width := constant.width_pos
      have total := indexed.count_eq
      simp only [count, Constant.totalWidth, Array.toList_push, List.map_append, List.sum_append,
        List.map_cons, List.map_nil, List.sum_cons, List.sum_nil] at total ⊢
      omega
    · have width := constant.width_pos
      simp only [count] at fits ⊢
      omega
    · intro key i found
      rw [Std.TreeMap.getElem?_insert] at found
      split at found
      · rename_i same
        cases found
        exact ⟨constant, Std.LawfulEqOrd.eq_of_compare same, get?_append indexed constant _ _⟩
      · obtain ⟨c, bytes, here⟩ := indexed.known found
        exact ⟨c, bytes, kept here⟩

/-- The index that an addition answers stands for the constant. -/
theorem get?_of_add {constant : Constant} (indexed : pool.Indexed)
    (added : add constant pool = .ok index after) : after.get? index = some constant := by
  rcases add_cases added with ⟨found, rfl⟩ | ⟨_, rfl, rfl⟩
  · -- A shared constant has the same bytes, so it is the same constant.
    obtain ⟨shared, bytes, here⟩ := indexed.known found
    rwa [Constant.toBytes_inj.mp bytes] at here
  · exact get?_append indexed constant _ _

theorem Reachable.indexed (reachable : pool.Reachable) : pool.Indexed := by
  induction reachable with
  | new => exact ⟨rfl, by decide, fun found => by simp [ConstantPool.new] at found⟩
  | blank => exact ⟨rfl, by decide, fun found => by simp [ConstantPool.blank] at found⟩
  | add _ added ih => exact (extends_of_add added).indexed ih

/-! ## What instructions add -/

theorem text?_of_addUtf8 {text : String} (indexed : pool.Indexed)
    (added : addUtf8 text pool = .ok index after) :
    pool.Extends after ∧ after.text? index = some text := by
  constructor
  · exact extends_of_add added
  · simp [text?, get?_of_add indexed added]

theorem className?_of_addType {this : ClassHandle} {ty : JType} (indexed : pool.Indexed)
    (added : addType this ty pool = .ok index after) :
    pool.Extends after ∧
      ∃ name, ty.internalName this = .ok name ∧ after.className? index = some name := by
  obtain ⟨name, _, named, addedClass⟩ := bind_eq_ok.mp added
  obtain ⟨nameEq, rfl⟩ := lift_eq_ok.mp named
  obtain ⟨nameIndex, middle, addedName, addedCls⟩ := bind_eq_ok.mp addedClass
  obtain ⟨grown, textAt⟩ := text?_of_addUtf8 indexed addedName
  have last := extends_of_add addedCls
  refine ⟨grown.trans last, name, nameEq, ?_⟩
  rw [className?, get?_of_add (grown.indexed indexed) addedCls]
  exact last.text? textAt

theorem literal?_of_addLiteral {literal : Literal} (indexed : pool.Indexed)
    (added : addLiteral literal pool = .ok index after) :
    pool.Extends after ∧ after.literal? index = some literal := by
  cases literal with
  | string text =>
      obtain ⟨textIndex, middle, addedText, addedString⟩ := bind_eq_ok.mp added
      obtain ⟨grown, textAt⟩ := text?_of_addUtf8 indexed addedText
      have last := extends_of_add addedString
      refine ⟨grown.trans last, ?_⟩
      simp [literal?, get?_of_add (grown.indexed indexed) addedString, last.text? textAt]
  | _ =>
      refine ⟨extends_of_add added, ?_⟩
      simp [literal?, get?_of_add indexed added]

theorem nameAndType?_of_addNameAndType {name descriptor : String} (indexed : pool.Indexed)
    (added : addNameAndType name descriptor pool = .ok index after) :
    pool.Extends after ∧ after.nameAndType? index = some (name, descriptor) := by
  obtain ⟨nameIndex, withName, addedName, rest⟩ := bind_eq_ok.mp added
  obtain ⟨descriptorIndex, withBoth, addedDescriptor, addedPair⟩ := bind_eq_ok.mp rest
  obtain ⟨grown, nameAt⟩ := text?_of_addUtf8 indexed addedName
  obtain ⟨grown', descriptorAt⟩ := text?_of_addUtf8 (grown.indexed indexed) addedDescriptor
  have last := extends_of_add addedPair
  refine ⟨(grown.trans grown').trans last, ?_⟩
  simp [nameAndType?, get?_of_add (grown'.indexed (grown.indexed indexed)) addedPair,
    (grown'.trans last).text? nameAt, last.text? descriptorAt]

theorem member?_of_addMemberRef {this : ClassHandle} {ref : MemberRef} (indexed : pool.Indexed)
    (added : addMemberRef this ref pool = .ok index after) :
    pool.Extends after ∧
      ∃ reference, ref.symbolic this = .ok reference ∧ after.member? index = some reference := by
  obtain ⟨ownerIndex, withOwner, addedOwner, rest⟩ := bind_eq_ok.mp added
  obtain ⟨descriptor, _, described, rest⟩ := bind_eq_ok.mp rest
  obtain ⟨descriptorEq, rfl⟩ := lift_eq_ok.mp described
  obtain ⟨pairIndex, withPair, addedPair, addedRef⟩ := bind_eq_ok.mp rest
  obtain ⟨grown, owner, ownerEq, ownerAt⟩ := className?_of_addType indexed addedOwner
  obtain ⟨grown', pairAt⟩ := nameAndType?_of_addNameAndType (grown.indexed indexed) addedPair
  have last := extends_of_add addedRef
  have found := get?_of_add (grown'.indexed (grown.indexed indexed)) addedRef
  have ownerAt' := (grown'.trans last).className? ownerAt
  have pairAt' := last.nameAndType? pairAt
  refine ⟨(grown.trans grown').trans last, ⟨ref.kind, owner, ref.name, descriptor⟩, ?_, ?_⟩
  · have descriptorEq' : ref.descriptor this = .ok descriptor := descriptorEq
    simp only [MemberRef.symbolic, ownerEq, descriptorEq', bind, Except.bind, pure, Except.pure]
  · rw [member?, found, MemberRef.kind]
    cases ref.isField <;> cases ref.isInterface <;>
      simp [Constant.refParts?, ownerAt', pairAt']

end ConstantPool

end JvmAssembler
