import Mathlib
import JvmAssembler.Proofs.PoolLookup

/-!
# Runs of requests to a constant pool

A pool answers requests: for a constant itself, or for a class, text, member or
literal, which may take several constants.  A request that fails keeps the
constants that it added before.

Main statement: after any requests the constants stand at consecutive indices
without repetition, adding finds a constant that is there and fails only when
the pool is full, and constants that requests made refer back to constants of
the right kind.
-/

namespace JvmAssembler

/-! ## Places and references -/

namespace Constant

/-- The index of the constant at a place. -/
def indexAt (constants : List Constant) (i : Nat) : Nat :=
  1 + totalWidth (constants.take i)

/-- An index that one of the constants takes. -/
def Occupied (constants : List Constant) (n : Nat) : Prop :=
  ∃ i constant, constants[i]? = some constant ∧
    indexAt constants i ≤ n ∧ n < indexAt constants i + constant.width

/-- The indices that a constant holds, each with the tag of the constant that it
should stand for. -/
def references : Constant → List (UInt16 × UInt8)
  | .cls text | .string text => [(text, 1)]
  | .nameAndType name descriptor => [(name, 1), (descriptor, 1)]
  | .fieldRef owner pair | .methodRef owner pair | .interfaceMethodRef owner pair =>
      [(owner, 7), (pair, 12)]
  | _ => []

/-- One of the first `i` constants has this index and tag. -/
def Holds (constants : List Constant) (i : Nat) (reference : UInt16 × UInt8) : Prop :=
  ∃ j < i, ∃ target, constants[j]? = some target ∧ target.tag = reference.2 ∧
    reference.1.toNat = indexAt constants j

/-- Every reference leads to an earlier constant of the right kind. -/
def Grounded (constants : List Constant) : Prop :=
  ∀ i constant, constants[i]? = some constant →
    ∀ reference ∈ constant.references, Holds constants i reference

variable {constants : List Constant} {constant last : Constant} {i : Nat}

/-- The places after one more constant: those before, and the last. -/
theorem place_cases (found : (constants ++ [last])[i]? = some constant) :
    (i < constants.length ∧ constants[i]? = some constant) ∨
      (i = constants.length ∧ constant = last) := by
  rcases Nat.lt_or_ge i constants.length with before | after
  · rw [List.getElem?_append_left before] at found
    exact .inl ⟨before, found⟩
  · have bound := (List.getElem?_eq_some_iff.mp found).1
    simp only [List.length_append, List.length_singleton] at bound
    obtain rfl : i = constants.length := by omega
    rw [List.getElem?_concat_length] at found
    exact .inr ⟨rfl, (Option.some.inj found).symm⟩

/-- A constant is found exactly at the index of its place. -/
theorem find?_eq_some_iff {start index : Nat} :
    find? start constants index = some constant ↔
      ∃ i, constants[i]? = some constant ∧ index = start + totalWidth (constants.take i) := by
  induction constants generalizing start with
  | nil => simp [find?]
  | cons first rest ih =>
      have later (i : Nat) : start + totalWidth ((first :: rest).take (i + 1)) =
          start + first.width + totalWidth (rest.take i) := by
        simp [totalWidth, Nat.add_assoc]
      rw [find?]
      split
      · rename_i here
        constructor
        · intro found
          exact ⟨0, found, here⟩
        · rintro ⟨_ | i, found, place⟩
          · exact found
          · have := first.width_pos
            rw [later] at place
            omega
      · rename_i elsewhere
        rw [ih]
        constructor
        · rintro ⟨i, found, place⟩
          exact ⟨i + 1, found, by rw [later, place]⟩
        · rintro ⟨_ | i, found, place⟩
          · exact absurd place elsewhere
          · exact ⟨i, found, by rw [← later, place]⟩

/-- The indices taken are those from one up to the next free one. -/
theorem occupied_iff {n : Nat} :
    Occupied constants n ↔ 1 ≤ n ∧ n < 1 + totalWidth constants := by
  induction constants using List.reverseRecOn with
  | nil =>
      simp only [Occupied, List.getElem?_nil, totalWidth, List.map_nil, List.sum_nil]
      constructor
      · rintro ⟨_, _, found, -⟩
        contradiction
      · omega
  | append_singleton constants last ih =>
      have total : totalWidth (constants ++ [last]) = totalWidth constants + last.width := by
        simp [totalWidth]
      have split : Occupied (constants ++ [last]) n ↔ Occupied constants n ∨
          (1 + totalWidth constants ≤ n ∧ n < 1 + totalWidth constants + last.width) := by
        unfold Occupied indexAt
        constructor
        · rintro ⟨i, constant, found, least, below⟩
          rcases place_cases found with ⟨before, old⟩ | ⟨rfl, rfl⟩
          · rw [List.take_append_of_le_length before.le] at least below
            exact .inl ⟨i, constant, old, least, below⟩
          · rw [List.take_left] at least below
            exact .inr ⟨least, below⟩
        · rintro (⟨i, constant, found, least, below⟩ | ⟨least, below⟩)
          · have before := (List.getElem?_eq_some_iff.mp found).1
            refine ⟨i, constant, ?_, ?_⟩
            · rwa [List.getElem?_append_left before]
            · rw [List.take_append_of_le_length before.le]
              exact ⟨least, below⟩
          · refine ⟨constants.length, last, List.getElem?_concat_length, ?_⟩
            rw [List.take_left]
            exact ⟨least, below⟩
      have := last.width_pos
      rw [split, ih, total]
      omega

/-- Adding constants moves no place. -/
theorem Holds.append {reference : UInt16 × UInt8} (holds : Holds constants i reference)
    (added : List Constant) : Holds (constants ++ added) i reference := by
  obtain ⟨j, before, target, found, kind, place⟩ := holds
  have bound := (List.getElem?_eq_some_iff.mp found).1
  refine ⟨j, before, target, ?_, kind, ?_⟩
  · rwa [List.getElem?_append_left bound]
  · rwa [indexAt, List.take_append_of_le_length bound.le]

/-- A constant whose references are there may be appended. -/
theorem Grounded.append (grounded : Grounded constants)
    (holds : ∀ reference ∈ last.references, Holds constants constants.length reference) :
    Grounded (constants ++ [last]) := by
  intro i constant found reference mem
  rcases place_cases found with ⟨-, old⟩ | ⟨rfl, rfl⟩
  · exact (grounded i constant old reference mem).append [last]
  · exact (holds reference mem).append [constant]

end Constant

/-! ## Requests -/

/-- What a pool can be asked for. -/
inductive PoolRequest where
  /-- The constant itself, whatever it refers to. -/
  | raw (constant : Constant)
  | utf8 (text : String)
  | cls (internalName : String)
  | type (this : ClassHandle) (ty : JType)
  | string (text : String)
  | nameAndType (name descriptor : String)
  | member (this : ClassHandle) (ref : MemberRef)
  | literal (value : Literal)

namespace PoolRequest

def isRaw : PoolRequest → Bool
  | .raw _ => true
  | _ => false

/-- The index that answers a request. -/
def answer : PoolRequest → PoolOp UInt16
  | .raw constant => ConstantPool.add constant
  | .utf8 text => ConstantPool.addUtf8 text
  | .cls internalName => ConstantPool.addClass internalName
  | .type this ty => ConstantPool.addType this ty
  | .string text => ConstantPool.addString text
  | .nameAndType name descriptor => ConstantPool.addNameAndType name descriptor
  | .member this ref => ConstantPool.addMemberRef this ref
  | .literal value => ConstantPool.addLiteral value

end PoolRequest

namespace ConstantPool

variable {α β : Type} {pool middle after : ConstantPool} {index : UInt16} {constant : Constant}

/-- The pool that an operation leaves, whether it succeeds or fails. -/
def poolAfter (op : PoolOp α) (pool : ConstantPool) : ConstantPool :=
  match op pool with
  | .ok _ after | .error _ after => after

/-- The pool after requests, made one after the other. -/
def serve (pool : ConstantPool) : List PoolRequest → ConstantPool
  | [] => pool
  | request :: rest => (poolAfter request.answer pool).serve rest

/-- No request for a constant itself adds one. -/
def AddsNoRaw (pool : ConstantPool) : List PoolRequest → Prop
  | [] => True
  | request :: rest =>
      (request.isRaw = true → poolAfter request.answer pool = pool) ∧
        AddsNoRaw (poolAfter request.answer pool) rest

/-! ## What additions keep -/

/-- Every constant has its bytes in the index, and none stands twice. -/
structure Interned (pool : ConstantPool) : Prop extends Indexed pool where
  complete : ∀ constant ∈ pool.constants.toList,
    ∃ index, pool.index[constant.toBytes]? = some index
  nodup : pool.constants.toList.Nodup

/-- The pool has a constant with this index and tag. -/
def Has (pool : ConstantPool) (reference : UInt16 × UInt8) : Prop :=
  Constant.Holds pool.constants.toList pool.constants.toList.length reference

theorem Has.grow {reference : UInt16 × UInt8} (has : pool.Has reference)
    (kept : pool.constants.toList <+: after.constants.toList) : after.Has reference := by
  obtain ⟨added, grown⟩ := kept
  obtain ⟨j, before, here⟩ := has.append added
  rw [grown] at here
  refine ⟨j, ?_, here⟩
  rw [← grown, List.length_append]
  omega

theorem has_of_get? (found : pool.get? index = some constant) :
    pool.Has (index, constant.tag) := by
  obtain ⟨j, place, position⟩ := Constant.find?_eq_some_iff.mp found
  exact ⟨j, (List.getElem?_eq_some_iff.mp place).1, constant, place, rfl, position⟩

/-- The index knows the bytes of a constant exactly if the constant is there. -/
theorem Interned.index_eq_none_iff (interned : pool.Interned) :
    pool.index[constant.toBytes]? = none ↔ constant ∉ pool.constants.toList := by
  constructor
  · intro unknown mem
    obtain ⟨index, found⟩ := interned.complete constant mem
    simp [unknown] at found
  · intro absent
    by_contra known
    obtain ⟨index, found⟩ := Option.ne_none_iff_exists'.mp known
    obtain ⟨shared, bytes, here⟩ := interned.known found
    obtain ⟨i, place, -⟩ := Constant.find?_eq_some_iff.mp here
    exact absent (Constant.toBytes_inj.mp bytes ▸ List.mem_of_getElem? place)

/-- The index of the bytes of a constant is that of its place. -/
theorem Interned.index_eq (interned : pool.Interned) {i : Nat}
    (place : pool.constants.toList[i]? = some constant) :
    ∃ index, pool.index[constant.toBytes]? = some index ∧
      index.toNat = Constant.indexAt pool.constants.toList i := by
  obtain ⟨index, known⟩ := interned.complete constant (List.mem_of_getElem? place)
  obtain ⟨shared, bytes, here⟩ := interned.known known
  obtain ⟨j, place', position⟩ := Constant.find?_eq_some_iff.mp here
  rw [Constant.toBytes_inj.mp bytes] at place'
  obtain ⟨bound, -⟩ := List.getElem?_eq_some_iff.mp place
  obtain rfl : i = j := (List.getElem?_inj bound interned.nodup).mp (place.trans place'.symm)
  exact ⟨index, known, position⟩

theorem add_of_known (known : pool.index[constant.toBytes]? = some index) :
    add constant pool = .ok index pool := by
  simp [add, known]

theorem add_eq_error_iff {e : Error} :
    add constant pool = .error e after ↔
      pool.index[constant.toBytes]? = none ∧ 65535 < pool.count + constant.width ∧
        e = .invalidInput .poolOverflow ∧ after = pool := by
  unfold add
  dsimp only
  cases pool.index[constant.toBytes]? with
  | some found => simp
  | none =>
      by_cases full : 65535 < pool.count + constant.width
      · simp [full, eq_comm]
      · simp [full]

theorem prefix_of_add (added : add constant pool = .ok index after) :
    pool.constants.toList <+: after.constants.toList := by
  rcases add_cases added with ⟨-, rfl⟩ | ⟨-, -, rfl⟩
  · exact List.prefix_rfl
  · simp

theorem Interned.add (interned : pool.Interned)
    (added : ConstantPool.add constant pool = .ok index after) : after.Interned := by
  rcases known : pool.index[constant.toBytes]? with _ | shared
  · have absent := interned.index_eq_none_iff.mp known
    have indexed := (extends_of_add added).indexed interned.toIndexed
    rcases add_cases added with ⟨-, rfl⟩ | ⟨-, rfl, rfl⟩
    · exact interned
    · refine { indexed with complete := fun other mem => ?_, nodup := ?_ }
      · rw [Array.toList_push, List.mem_append, List.mem_singleton] at mem
        rcases mem with old | rfl
        · obtain ⟨index, found⟩ := interned.complete other old
          refine ⟨index, ?_⟩
          rw [Std.TreeMap.getElem?_insert, if_neg, found]
          intro same
          rw [Std.LawfulEqOrd.eq_of_compare same, found] at known
          contradiction
        · exact ⟨_, Std.TreeMap.getElem?_insert_self⟩
      · rw [Array.toList_push]
        exact List.nodup_append.mpr ⟨interned.nodup, List.nodup_singleton _, by
          rintro old mem _ (_ | ⟨_, ⟨⟩⟩) rfl
          exact absent mem⟩
  · rw [add_of_known known] at added
    cases added
    exact interned

/-! ## What requests keep -/

/-- An interned pool whose constants refer back, as long as `clean` holds. -/
structure Sound (clean : Prop) (pool : ConstantPool) : Prop extends Interned pool where
  grounded : clean → Constant.Grounded pool.constants.toList

/-- A sound pool that has the constants of an earlier one. -/
structure Grown (clean : Prop) (pool after : ConstantPool) : Prop where
  sound : Sound clean after
  constants : pool.constants.toList <+: after.constants.toList

/-- An operation that leaves a grown pool; if it succeeds then its answer is `answered`. -/
structure Builds (clean : Prop) (op : PoolOp α) (answered : α → ConstantPool → Prop)
    (pool : ConstantPool) : Prop where
  grown : pool.Grown clean (poolAfter op pool)
  answers : ∀ {a : α} {after : ConstantPool}, op pool = .ok a after → answered a after

variable {clean : Prop}

theorem Grown.trans (first : pool.Grown clean middle) (second : middle.Grown clean after) :
    pool.Grown clean after :=
  ⟨second.sound, first.constants.trans second.constants⟩

theorem Builds.bind {op : PoolOp α} {next : α → PoolOp β} {answered : α → ConstantPool → Prop}
    {answered' : β → ConstantPool → Prop} (first : Builds clean op answered pool)
    (rest : ∀ a middle, pool.Grown clean middle → answered a middle →
      Builds clean (next a) answered' middle) :
    Builds clean (op >>= next) answered' pool := by
  have grown := first.grown
  rcases ran : op pool with ⟨a, middle⟩ | ⟨e, middle⟩
  · have here : (op >>= next) pool = next a middle := bind_apply_of_ok ran
    have grown : pool.Grown clean middle := by simpa [poolAfter, ran] using grown
    have later := rest a middle grown (first.answers ran)
    constructor
    · have same : poolAfter (op >>= next) pool = poolAfter (next a) middle := by
        simp [poolAfter, here]
      rw [same]
      exact grown.trans later.grown
    · intro b after ok
      exact later.answers (here ▸ ok)
  · have here : (op >>= next) pool = .error e middle := bind_apply_of_error ran
    constructor
    · simpa [poolAfter, here, ran] using grown
    · intro b after ok
      rw [here] at ok
      contradiction

theorem builds_lift (sound : Sound clean pool) (result : Except Error α) :
    Builds clean (lift result) (fun _ _ => True) pool := by
  cases result <;> exact ⟨⟨sound, List.prefix_rfl⟩, fun _ => trivial⟩

/-- Adding a constant whose references are there keeps all references right. -/
theorem builds_add (sound : Sound clean pool)
    (held : clean → ∀ reference ∈ constant.references, pool.Has reference) :
    Builds clean (add constant) (fun index after => after.Has (index, constant.tag)) pool := by
  rcases ran : add constant pool with ⟨index, after⟩ | ⟨e, after⟩
  · have grounded (isClean : clean) : Constant.Grounded after.constants.toList := by
      rcases add_cases ran with ⟨-, rfl⟩ | ⟨-, -, rfl⟩
      · exact sound.grounded isClean
      · rw [Array.toList_push]
        exact (sound.grounded isClean).append (held isClean)
    constructor
    · simp only [poolAfter, ran]
      exact ⟨{ sound.toInterned.add ran with grounded }, prefix_of_add ran⟩
    · intro index after added
      exact has_of_get? (get?_of_add sound.toIndexed added)
  · obtain ⟨-, -, -, rfl⟩ := add_eq_error_iff.mp ran
    constructor
    · simp only [poolAfter, ran]
      exact ⟨sound, List.prefix_rfl⟩
    · intro index after added
      rw [ran] at added
      contradiction

theorem builds_addUtf8 (sound : Sound clean pool) (text : String) :
    Builds clean (addUtf8 text) (fun index after => after.Has (index, 1)) pool :=
  builds_add sound (by simp [Constant.references])

theorem builds_addClass (sound : Sound clean pool) (internalName : String) :
    Builds clean (addClass internalName) (fun index after => after.Has (index, 7)) pool :=
  (builds_addUtf8 sound internalName).bind fun name _ grown hasName =>
    builds_add grown.sound (by simpa [Constant.references] using fun _ => hasName)

theorem builds_addType (sound : Sound clean pool) (this : ClassHandle) (ty : JType) :
    Builds clean (addType this ty) (fun index after => after.Has (index, 7)) pool :=
  (builds_lift sound _).bind fun name _ grown _ => builds_addClass grown.sound name

theorem builds_addString (sound : Sound clean pool) (text : String) :
    Builds clean (addString text) (fun index after => after.Has (index, 8)) pool :=
  (builds_addUtf8 sound text).bind fun index _ grown hasText =>
    builds_add grown.sound (by simpa [Constant.references] using fun _ => hasText)

theorem builds_addNameAndType (sound : Sound clean pool) (name descriptor : String) :
    Builds clean (addNameAndType name descriptor)
      (fun index after => after.Has (index, 12)) pool := by
  refine (builds_addUtf8 sound name).bind fun nameIndex withName grown hasName => ?_
  refine (builds_addUtf8 grown.sound descriptor).bind fun index withBoth grown' hasDescriptor => ?_
  refine builds_add grown'.sound fun _ => ?_
  simpa [Constant.references] using ⟨hasName.grow grown'.constants, hasDescriptor⟩

theorem builds_addMemberRef (sound : Sound clean pool) (this : ClassHandle) (ref : MemberRef) :
    Builds clean (addMemberRef this ref) (fun _ _ => True) pool := by
  refine (builds_addType sound this ref.owner).bind fun owner withOwner grown hasOwner => ?_
  refine (builds_lift grown.sound _).bind fun descriptor described same _ => ?_
  refine (builds_addNameAndType same.sound ref.name descriptor).bind
    fun pair withPair grown' hasPair => ?_
  have hasOwner := hasOwner.grow (same.trans grown').constants
  refine ⟨(builds_add grown'.sound fun _ => ?_).grown, fun _ => trivial⟩
  cases ref.isField <;> cases ref.isInterface <;>
    simpa [Constant.references] using ⟨hasOwner, hasPair⟩

theorem grown_of_request (request : PoolRequest) (sound : Sound clean pool)
    (noRaw : clean → request.isRaw = true → poolAfter request.answer pool = pool) :
    pool.Grown clean (poolAfter request.answer pool) := by
  cases request with
  | raw constant =>
      have loose : Sound False pool := { sound.toInterned with grounded := False.elim }
      have grown : pool.Grown False (poolAfter (add constant) pool) :=
        (builds_add loose False.elim).grown
      refine ⟨{ grown.sound.toInterned with grounded := fun isClean => ?_ }, grown.constants⟩
      rw [noRaw isClean rfl]
      exact sound.grounded isClean
  | utf8 text => exact (builds_addUtf8 sound text).grown
  | cls internalName => exact (builds_addClass sound internalName).grown
  | type this ty => exact (builds_addType sound this ty).grown
  | string text => exact (builds_addString sound text).grown
  | nameAndType name descriptor => exact (builds_addNameAndType sound name descriptor).grown
  | member this ref => exact (builds_addMemberRef sound this ref).grown
  | literal value =>
      cases value with
      | string text => exact (builds_addString sound text).grown
      | _ => exact (builds_add sound (by simp [Constant.references])).grown

theorem sound_of_serve {requests : List PoolRequest} (sound : Sound clean pool)
    (noRaw : clean → pool.AddsNoRaw requests) : Sound clean (pool.serve requests) := by
  induction requests generalizing pool with
  | nil => exact sound
  | cons request rest ih =>
      have grown := grown_of_request request sound fun isClean => (noRaw isClean).1
      exact ih grown.sound fun isClean => (noRaw isClean).2

theorem sound_new : Sound clean .new where
  toIndexed := Reachable.new.indexed
  complete := by simp [ConstantPool.new]
  nodup := by simp [ConstantPool.new]
  grounded _ := by simp [ConstantPool.new, Constant.Grounded]

theorem sound_blank : Sound clean .blank where
  toIndexed := Reachable.blank.indexed
  complete := by simp [ConstantPool.blank]
  nodup := by simp [ConstantPool.blank]
  grounded _ := by simp [ConstantPool.blank, Constant.Grounded]

/-! ## The representation -/

/-- How a pool stands for its constants, and what one more addition or request
does to it. -/
structure Represents (pool : ConstantPool) : Prop where
  index_eq : ∀ i constant, pool.constants.toList[i]? = some constant →
    ∃ index, pool.index[constant.toBytes]? = some index ∧
      index.toNat = 1 + Constant.totalWidth (pool.constants.toList.take i)
  occupied_iff : ∀ n, Constant.Occupied pool.constants.toList n ↔ 1 ≤ n ∧ n < pool.count
  count_le : pool.count ≤ 65535
  nodup : pool.constants.toList.Nodup
  /-- What an addition answers is the index of the constant asked for. -/
  add_ok : ∀ constant index after, add constant pool = .ok index after →
    ∃ i, after.constants.toList[i]? = some constant ∧
      index.toNat = Constant.indexAt after.constants.toList i
  /-- An addition fails exactly if the constant is new and there is no room. -/
  add_error_iff : ∀ constant e after, add constant pool = .error e after ↔
    (constant ∉ pool.constants.toList ∧ 65535 < pool.count + constant.width) ∧
      e = .invalidInput .poolOverflow ∧ after = pool
  /-- No request moves or changes a constant, also if it fails. -/
  kept : ∀ (request : PoolRequest) (i : Nat) (constant : Constant),
    pool.constants.toList[i]? = some constant →
      (poolAfter request.answer pool).constants.toList[i]? = some constant ∧
        (poolAfter request.answer pool).index[constant.toBytes]? =
          pool.index[constant.toBytes]?

theorem Interned.kept (interned : pool.Interned) (request : PoolRequest) {i : Nat}
    (place : pool.constants.toList[i]? = some constant) :
    (poolAfter request.answer pool).constants.toList[i]? = some constant ∧
      (poolAfter request.answer pool).index[constant.toBytes]? =
        pool.index[constant.toBytes]? := by
  have loose : Sound False pool := { interned with grounded := False.elim }
  have grown := grown_of_request request loose False.elim
  obtain ⟨added, appended⟩ := grown.constants
  have bound := (List.getElem?_eq_some_iff.mp place).1
  have place' : (poolAfter request.answer pool).constants.toList[i]? = some constant := by
    rwa [← appended, List.getElem?_append_left bound]
  obtain ⟨index, known, position⟩ := interned.index_eq place
  obtain ⟨index', known', position'⟩ := grown.sound.toInterned.index_eq place'
  refine ⟨place', ?_⟩
  rw [known, known', Option.some.injEq, ← UInt16.toNat_inj, position, position',
    Constant.indexAt, Constant.indexAt, ← appended, List.take_append_of_le_length bound.le]

theorem Interned.represents (interned : pool.Interned) : pool.Represents where
  index_eq _ _ place := interned.index_eq place
  occupied_iff n := by rw [Constant.occupied_iff, interned.count_eq]
  count_le := interned.count_le
  nodup := interned.nodup
  add_ok constant index after added :=
    Constant.find?_eq_some_iff.mp (get?_of_add interned.toIndexed added)
  add_error_iff constant e after := by
    rw [add_eq_error_iff, interned.index_eq_none_iff, and_assoc]
  kept request _ _ place := interned.kept request place

/-- However requests follow each other, the constants stand at consecutive
indices without repetition, additions share or append, and as long as no constant
was added as it is, references lead to earlier constants of the right kind. -/
theorem represents_of_serve {start : ConstantPool} (empty : start = .new ∨ start = .blank)
    (requests : List PoolRequest) :
    (start.serve requests).Represents ∧
      (start.AddsNoRaw requests → Constant.Grounded (start.serve requests).constants.toList) := by
  have sound : Sound (start.AddsNoRaw requests) start := by
    rcases empty with rfl | rfl
    · exact sound_new
    · exact sound_blank
  have served := sound_of_serve sound id
  exact ⟨served.toInterned.represents, served.grounded⟩

end ConstantPool

/-- A wide literal, a method, and a text that is the method's name. -/
def Sample.mixedRequests : List PoolRequest :=
  [.literal (.long 7),
    .member (.named "Demo" "java/lang/Object") (.method .self "f" [.int] .long),
    .string "f"]

/-- The text of the last request is shared with the method's name. -/
theorem Sample.mixedRequests_represented :
    ConstantPool.blank.AddsNoRaw mixedRequests ∧
      (ConstantPool.blank.serve mixedRequests).constants.toList =
        [.long 7, .utf8 "Demo", .cls 3, .utf8 "f", .utf8 "(I)J", .nameAndType 5 6,
          .methodRef 4 7, .string 5] ∧
      (ConstantPool.blank.serve mixedRequests).Represents ∧
      Constant.Grounded (ConstantPool.blank.serve mixedRequests).constants.toList := by
  have noRaw : ConstantPool.blank.AddsNoRaw mixedRequests := by
    simp [mixedRequests, ConstantPool.AddsNoRaw, PoolRequest.isRaw]
  have represents := ConstantPool.represents_of_serve (.inr rfl) mixedRequests
  exact ⟨noRaw, by decide +kernel, represents.1, represents.2 noRaw⟩

end JvmAssembler
