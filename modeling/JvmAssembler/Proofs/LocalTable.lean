import Mathlib
import JvmAssembler.Frame

/-!
# The table of local variable slots

The types of the slots and their names stand in two arrays, which grow and are
cut back together.  For each change of a table: how many slots it leaves, and
the type and the name of every slot afterwards.  A name stands for the last slot
that has it.

The number of slots is that of the types.  What is said about names therefore
needs tables with as many names as types; every change keeps the two numbers
equal.
-/

namespace JvmAssembler

theorem JType.width_of_value {ty : JType} (value : ty.isVoid = false) :
    ty.width = 1 ∨ ty.width = 2 := by
  cases ty with
  | void => contradiction
  | _ =>
      simp only [width]
      split <;> simp

/-- A table with as many names as types. -/
def LocalTable.Matched (locals : LocalTable) : Prop :=
  locals.names.size = locals.types.size

namespace Frame

/-! ## Arrays of entries -/

section

variable {α : Type} (entries : Array (Option α))

theorem size_resized (count : Nat) : (resized entries count).size = count := by
  simp [resized]
  omega

theorem join_take (count i : Nat) :
    (entries.take count)[i]?.join = if i < count then entries[i]?.join else none := by
  rw [Array.take_eq_extract, Array.getElem?_extract]
  by_cases inside : i < entries.size
  · by_cases kept : i < count
    · simp [kept, inside]
    · simp [kept]
  · simp [Array.getElem?_eq_none (Nat.le_of_not_lt inside)]

theorem join_resized {count : Nat} (fewer : entries.size ≤ count) (i : Nat) :
    (resized entries count)[i]?.join = entries[i]?.join := by
  have all : entries.take count = entries := by simp [Array.extract_eq_self_of_le fewer]
  rw [resized, all, Array.getElem?_append]
  split
  · rfl
  · rename_i outside
    rw [Array.getElem?_eq_none (Nat.le_of_not_lt outside), Array.getElem?_replicate]
    split <;> rfl

theorem join_cleared (j i : Nat) :
    (entries.modify j fun _ => none)[i]?.join = if i = j then none else entries[i]?.join := by
  rw [Array.getElem?_modify]
  by_cases here : i = j
  · cases entries[i]? <;> simp [here]
  · simp [here, Ne.symm here]

theorem join_filled {j : Nat} (inside : j < entries.size) (entry : Option α) (i : Nat) :
    (entries.modify j fun _ => entry)[i]?.join = if i = j then entry else entries[i]?.join := by
  rw [Array.getElem?_modify]
  by_cases here : i = j
  · simp [here, Array.getElem?_eq_getElem inside]
  · simp [here, Ne.symm here]

end

/-! ## Slots -/

/-- The name recorded for a slot of a table. -/
def nameIn? (locals : LocalTable) (index : Nat) : Option String :=
  locals.names[index]?.join

/-- Whether a slot of a table has a wide type. -/
def holdsWide (locals : LocalTable) (index : Nat) : Bool :=
  (typeIn? locals index).any JType.isWide

section

variable {locals : LocalTable} {index i : Nat} {ty : JType}

theorem typeIn?_eq_none_of_size_le (outside : locals.size ≤ i) : typeIn? locals i = none := by
  simp [typeIn?, Array.getElem?_eq_none (show locals.types.size ≤ i from outside)]

theorem lt_size_of_typeIn? (typed : (typeIn? locals i).isSome) : i < locals.size := by
  by_contra outside
  simp [typeIn?_eq_none_of_size_le (Nat.le_of_not_lt outside)] at typed

theorem lt_size_of_nameIn? (matched : locals.Matched) (named : (nameIn? locals i).isSome) :
    i < locals.size := by
  by_contra outside
  have beyond : locals.names.size ≤ i := matched.trans_le (Nat.le_of_not_lt outside)
  simp [nameIn?, Array.getElem?_eq_none beyond] at named

/-! ## Making room -/

theorem size_extended (locals : LocalTable) (count : Nat) :
    (extended locals count).size = max locals.size count := by
  unfold extended
  split
  · simp only [LocalTable.size, size_resized] at *
    omega
  · omega

theorem typeIn?_extended (locals : LocalTable) (count i : Nat) :
    typeIn? (extended locals count) i = typeIn? locals i := by
  unfold extended
  split
  · rename_i fewer
    exact join_resized locals.types fewer.le i
  · rfl

theorem nameIn?_extended (matched : locals.Matched) (count i : Nat) :
    nameIn? (extended locals count) i = nameIn? locals i := by
  unfold extended
  split
  · rename_i fewer
    exact join_resized locals.names (matched.trans_le fewer.le) i
  · rfl

theorem freed_eq (locals : LocalTable) (index : Nat) (ty : JType) :
    freed locals index ty =
      if holdsWide locals index = true ∧ ty.width = 1 then
        { locals with types := locals.types.modify (index + 1) fun _ => none }
      else locals := by
  unfold freed holdsWide
  cases typeIn? locals index with
  | none => simp
  | some old => simp

theorem size_freed (locals : LocalTable) (index : Nat) (ty : JType) :
    (freed locals index ty).size = locals.size := by
  rw [freed_eq]
  split <;> simp [LocalTable.size]

theorem names_freed (locals : LocalTable) (index : Nat) (ty : JType) :
    (freed locals index ty).names = locals.names := by
  rw [freed_eq]
  split <;> rfl

theorem typeIn?_freed (locals : LocalTable) (index : Nat) (ty : JType) (i : Nat) :
    typeIn? (freed locals index ty) i =
      if i = index + 1 ∧ holdsWide locals index = true ∧ ty.width = 1 then none
      else typeIn? locals i := by
  rw [freed_eq]
  by_cases frees : holdsWide locals index = true ∧ ty.width = 1
  · rw [if_pos frees, typeIn?, join_cleared]
    simp [frees, typeIn?]
  · rw [if_neg frees, if_neg fun second => frees second.2]

end

end Frame

namespace LocalTable.Matched

variable {locals : LocalTable}

theorem extended (matched : locals.Matched) (count : Nat) : (Frame.extended locals count).Matched := by
  unfold Frame.extended
  split
  · exact (Frame.size_resized _ _).trans (Frame.size_resized _ _).symm
  · exact matched

theorem freed (matched : locals.Matched) (index : Nat) (ty : JType) :
    (Frame.freed locals index ty).Matched := by
  have sizes := matched.trans (Frame.size_freed locals index ty).symm
  rwa [← Frame.names_freed locals index ty] at sizes

theorem written (matched : locals.Matched) (index : Nat) (ty : JType) :
    (Frame.written locals index ty).Matched := by
  have room := (matched.freed index ty).extended (index + ty.width)
  unfold Frame.written
  dsimp only
  split <;> simpa [Matched] using room

theorem renamed (matched : locals.Matched) (index : Nat) (name : Option String) :
    (Frame.renamed locals index name).Matched := by
  simpa [Matched, Frame.renamed] using matched

theorem take (matched : locals.Matched) (count : Nat) : (locals.take count).Matched := by
  have sizes : locals.names.size = locals.types.size := matched
  simp [Matched, LocalTable.take, sizes]

theorem take_size (matched : locals.Matched) : locals.take locals.size = locals := by
  have sizes : locals.types.size = locals.names.size := matched.symm
  have names : locals.names.take locals.types.size = locals.names := by simp [sizes]
  rw [LocalTable.take, LocalTable.size, names]
  simp

end LocalTable.Matched

namespace Frame

variable {locals : LocalTable} {index : Nat} {ty : JType}

/-! ## Writing a variable -/

theorem size_written (locals : LocalTable) (index : Nat) (ty : JType) :
    (written locals index ty).size = max locals.size (index + ty.width) := by
  rw [← size_freed locals index ty, ← size_extended]
  unfold written
  dsimp only
  split <;> simp [LocalTable.size]

/-- A wide variable takes the name of its second slot away. -/
theorem nameIn?_written (matched : locals.Matched) (index : Nat) (ty : JType) (i : Nat) :
    nameIn? (written locals index ty) i =
      if i = index + 1 ∧ ty.width = 2 then none else nameIn? locals i := by
  have room : nameIn? (extended (freed locals index ty) (index + ty.width)) i =
      nameIn? locals i := by
    rw [nameIn?_extended (matched.freed index ty), nameIn?, names_freed, nameIn?]
  rw [← room]
  unfold written
  dsimp only
  split
  · rename_i wide
    rw [nameIn?, join_cleared]
    simp [show ty.width = 2 by simpa using wide, nameIn?]
  · rename_i narrow
    rw [if_neg fun second => narrow (by simp [second.2])]
    rfl

/-- A narrow variable that takes the place of a wide one frees the slot after it. -/
theorem typeIn?_written (locals : LocalTable) (index : Nat) (value : ty.isVoid = false) (i : Nat) :
    typeIn? (written locals index ty) i =
      if i = index ∨ (i = index + 1 ∧ ty.width = 2) then some ty
      else if i = index + 1 ∧ holdsWide locals index = true then none else typeIn? locals i := by
  have width := JType.width_of_value value
  have room : index + ty.width ≤
      (extended (freed locals index ty) (index + ty.width)).types.size :=
    (Nat.le_max_right _ _).trans_eq (size_extended _ _).symm
  have before := (typeIn?_extended (freed locals index ty) (index + ty.width) i).trans
    (typeIn?_freed locals index ty i)
  have first := join_filled (extended (freed locals index ty) (index + ty.width)).types
    (show index < _ by omega) (some ty) i
  rw [typeIn?] at before
  unfold written
  dsimp only
  split
  · rename_i wide
    have isWide : ty.width = 2 := by simpa using wide
    rw [typeIn?, join_filled _ (by rw [Array.size_modify]; omega), first, before]
    grind
  · rename_i narrow
    have isNarrow : ty.width = 1 := by
      rcases width with one | two
      · exact one
      · simp [two] at narrow
    rw [typeIn?, first, before]
    grind

theorem typeIn?_of_written {i : Nat} {held : JType} (value : ty.isVoid = false)
    (typed : typeIn? (written locals index ty) i = some held) :
    held = ty ∧ (i = index ∨ (i = index + 1 ∧ ty.width = 2)) ∨ typeIn? locals i = some held := by
  rw [typeIn?_written locals index value] at typed
  split_ifs at typed with isNew
  · exact .inl ⟨(Option.some.inj typed).symm, isNew⟩
  · exact .inr typed

theorem typeIn?_written_of_gap (gap : typeIn? locals index = none) (value : ty.isVoid = false)
    (i : Nat) :
    typeIn? (written locals index ty) i =
      if i = index ∨ (i = index + 1 ∧ ty.width = 2) then some ty else typeIn? locals i := by
  rw [typeIn?_written locals index value]
  simp [holdsWide, gap]

@[simp]
theorem typeIn?_renamed (locals : LocalTable) (index : Nat) (name : Option String) (i : Nat) :
    typeIn? (renamed locals index name) i = typeIn? locals i :=
  rfl

@[simp]
theorem size_renamed (locals : LocalTable) (index : Nat) (name : Option String) :
    (renamed locals index name).size = locals.size :=
  rfl

theorem nameIn?_renamed {name : Option String} {i : Nat} (elsewhere : i ≠ index) :
    nameIn? (renamed locals index name) i = nameIn? locals i := by
  simp [nameIn?, renamed, Array.getElem?_modify, Ne.symm elsewhere]

/-! ## Cutting a table back -/

@[simp]
theorem size_take (locals : LocalTable) (count : Nat) :
    (locals.take count).size = min count locals.size := by
  simp [LocalTable.take, LocalTable.size]

theorem typeIn?_take (locals : LocalTable) (count i : Nat) :
    typeIn? (locals.take count) i = if i < count then typeIn? locals i else none :=
  join_take locals.types count i

theorem nameIn?_take (locals : LocalTable) (count i : Nat) :
    nameIn? (locals.take count) i = if i < count then nameIn? locals i else none :=
  join_take locals.names count i

/-! ## Slots by name -/

theorem lastNamed_eq_some_iff {names : Array (Option String)} {name : String} {count k : Nat} :
    lastNamed names name count = some k ↔
      k < count ∧ names[k]?.join = some name ∧
        ∀ j, k < j → j < count → names[j]?.join ≠ some name := by
  induction count with
  | zero => simp [lastNamed]
  | succ count ih =>
      rw [lastNamed]
      split
      · rename_i here
        constructor
        · rintro ⟨⟩
          exact ⟨Nat.lt_succ_self _, here, fun j above below => by omega⟩
        · rintro ⟨below, -, latest⟩
          rcases Nat.lt_succ_iff_lt_or_eq.mp below with before | rfl
          · exact absurd here (latest count before (Nat.lt_succ_self _))
          · rfl
      · rename_i elsewhere
        rw [ih]
        constructor
        · rintro ⟨below, named, latest⟩
          refine ⟨by omega, named, fun j above within => ?_⟩
          rcases Nat.lt_succ_iff_lt_or_eq.mp within with before | rfl
          · exact latest j above before
          · exact elsewhere
        · rintro ⟨below, named, latest⟩
          refine ⟨?_, named, fun j above before => latest j above (by omega)⟩
          rcases Nat.lt_succ_iff_lt_or_eq.mp below with before | rfl
          · exact before
          · exact absurd named elsewhere

/-- A name stands for the last slot that has it. -/
theorem indexIn?_eq_some_iff {name : String} {k : Nat} :
    indexIn? locals name = some k ↔
      nameIn? locals k = some name ∧ ∀ j, k < j → nameIn? locals j ≠ some name := by
  have inside {j : Nat} (named : nameIn? locals j = some name) : j < locals.names.size := by
    by_contra outside
    simp [nameIn?, Array.getElem?_eq_none (Nat.le_of_not_lt outside)] at named
  rw [indexIn?, lastNamed_eq_some_iff]
  constructor
  · rintro ⟨-, named, latest⟩
    exact ⟨named, fun j above isName => latest j above (inside isName) isName⟩
  · rintro ⟨named, latest⟩
    exact ⟨inside named, named, fun j above _ => latest j above⟩

/-- Only names matter for the slot of a name. -/
theorem indexIn?_congr {locals' : LocalTable} (same : ∀ i, nameIn? locals i = nameIn? locals' i)
    (name : String) : indexIn? locals name = indexIn? locals' name := by
  ext k
  simp only [indexIn?_eq_some_iff, same]

end Frame

end JvmAssembler
