import Mathlib
import JvmAssembler.Proofs.IntegerWords

/-!
# Scopes in local slots

The variables in scope take the local slots from the bottom up, in the order of
their declarations, and a wide one takes two.  Where the generator's table of
slots is laid out like this, a name stands for the slot of its innermost
variable; and where the machine's slots hold the values of the variables, a
write to the slot of one is an assignment to it and leaves the others alone.
-/

namespace JvmAssembler

/-! ## The table of slots -/

/-- The type and the name of a slot. -/
structure LocalSlot where
  type : Option JType
  name : Option String

namespace LocalTable

/-- The table with the given slots. -/
def ofSlots (slots : List LocalSlot) : LocalTable where
  types := (slots.map (·.type)).toArray
  names := (slots.map (·.name)).toArray

variable (slots : List LocalSlot)

@[simp]
theorem size_ofSlots : (ofSlots slots).size = slots.length := by
  simp [ofSlots, size]

theorem matched_ofSlots : (ofSlots slots).Matched := by
  simp [ofSlots, Matched]

theorem typeIn?_ofSlots (i : Nat) :
    Frame.typeIn? (ofSlots slots) i = slots[i]?.bind (·.type) := by
  simp only [Frame.typeIn?, ofSlots, List.getElem?_toArray, List.getElem?_map]
  cases slots[i]? <;> rfl

theorem nameIn?_ofSlots (i : Nat) :
    Frame.nameIn? (ofSlots slots) i = slots[i]?.bind (·.name) := by
  simp only [Frame.nameIn?, ofSlots, List.getElem?_toArray, List.getElem?_map]
  cases slots[i]? <;> rfl

theorem take_ofSlots (count : Nat) : (ofSlots slots).take count = ofSlots (slots.take count) := by
  simp [ofSlots, take]

end LocalTable

/-- The slots of a variable with or without a name. -/
def variableSlots (name : Option String) (ty : JType) : List LocalSlot :=
  ⟨some ty, name⟩ :: if ty.isWide then [⟨some ty, none⟩] else []

/-- The slots of a variable. -/
def slotsOf (name : String) (ty : IntType) : List LocalSlot :=
  ⟨some ty.type, some name⟩ :: if ty = .long then [⟨some ty.type, none⟩] else []

/-- The slot of the receiver of an instance method. -/
def receiverSlots (isStatic : Bool) : List LocalSlot :=
  if isStatic then [] else [⟨some .self, some receiverName⟩]

/-- The slots of the variables of a scope, innermost variable first, above that
of the receiver. -/
def layout (isStatic : Bool) : List (String × IntType) → List LocalSlot
  | [] => receiverSlots isStatic
  | (name, ty) :: outer => layout isStatic outer ++ slotsOf name ty

section Layout

variable {isStatic : Bool} {name : String} {ty : IntType}
variable {outer scope : List (String × IntType)}

theorem length_slotsOf (name : String) (ty : IntType) :
    (slotsOf name ty).length = ty.type.width := by
  cases ty <;> rfl

theorem length_layout_cons :
    (layout isStatic ((name, ty) :: outer)).length =
      (layout isStatic outer).length + ty.type.width := by
  rw [layout, List.length_append, length_slotsOf]

theorem take_layout_append (inner outer : List (String × IntType)) :
    (layout isStatic (inner ++ outer)).take (layout isStatic outer).length =
      layout isStatic outer := by
  induction inner with
  | nil => exact List.take_length
  | cons first inner ih =>
      have shorter :
          (layout isStatic outer).length ≤ (layout isStatic (inner ++ outer)).length := by
        rw [← ih]
        exact List.length_take_le' _ _
      rw [List.cons_append, layout, List.take_append_of_le_length shorter, ih]

theorem getElem?_layout_cons :
    (layout isStatic ((name, ty) :: outer))[(layout isStatic outer).length]? =
      some ⟨some ty.type, some name⟩ := by
  simp [layout, slotsOf]

theorem indexIn?_ofSlots_lt {slots : List LocalSlot} {index : Nat}
    (found : Frame.indexIn? (.ofSlots slots) name = some index) : index < slots.length := by
  have named := (Frame.indexIn?_eq_some_iff.mp found).1
  simpa using Frame.lt_size_of_nameIn? (LocalTable.matched_ofSlots slots) (by simp [named])

theorem nameIn?_layout_of_le {index : Nat} (behind : (layout isStatic scope).length ≤ index) :
    Frame.nameIn? (.ofSlots (layout isStatic scope)) index = none := by
  simp [LocalTable.nameIn?_ofSlots, List.getElem?_eq_none behind]

/-- Only the first slot of a variable has its name. -/
theorem nameIn?_layout_cons (index : Nat) :
    Frame.nameIn? (.ofSlots (layout isStatic ((name, ty) :: outer))) index =
      if index = (layout isStatic outer).length then some name
      else Frame.nameIn? (.ofSlots (layout isStatic outer)) index := by
  rcases Nat.lt_trichotomy index (layout isStatic outer).length with lower | rfl | above
  · rw [if_neg lower.ne, LocalTable.nameIn?_ofSlots, layout, List.getElem?_append_left lower,
      LocalTable.nameIn?_ofSlots]
  · rw [if_pos rfl, LocalTable.nameIn?_ofSlots, getElem?_layout_cons, Option.bind_some]
  · obtain ⟨rest, rfl⟩ := Nat.exists_eq_add_of_lt above
    rw [if_neg above.ne', nameIn?_layout_of_le above.le, LocalTable.nameIn?_ofSlots, layout,
      Nat.add_assoc, List.getElem?_append_right (Nat.le_add_right _ _), Nat.add_sub_cancel_left,
      slotsOf, List.getElem?_cons_succ]
    split
    · cases rest <;> simp
    · simp

/-- The slots of a name are those of its innermost variable. -/
theorem indexIn?_layout_cons (other : String) :
    Frame.indexIn? (.ofSlots (layout isStatic ((name, ty) :: outer))) other =
      if name = other then some (layout isStatic outer).length
      else Frame.indexIn? (.ofSlots (layout isStatic outer)) other := by
  split
  · rename_i isName
    refine Frame.indexIn?_eq_some_iff.mpr ⟨by simp [nameIn?_layout_cons, isName], fun j above => ?_⟩
    simp [nameIn?_layout_cons, above.ne', nameIn?_layout_of_le above.le]
  · rename_i differs
    have same (i : Nat) :
        Frame.nameIn? (.ofSlots (layout isStatic ((name, ty) :: outer))) i = some other ↔
          Frame.nameIn? (.ofSlots (layout isStatic outer)) i = some other := by
      rw [nameIn?_layout_cons]
      split
      · rename_i first
        simp [differs, nameIn?_layout_of_le first.ge]
      · rfl
    ext index
    simp only [Frame.indexIn?_eq_some_iff, ne_eq, same]

theorem typeIn?_layout_cons_of_lt {index : Nat} (lower : index < (layout isStatic outer).length) :
    Frame.typeIn? (.ofSlots (layout isStatic ((name, ty) :: outer))) index =
      Frame.typeIn? (.ofSlots (layout isStatic outer)) index := by
  simp [LocalTable.typeIn?_ofSlots, layout, List.getElem?_append_left lower]

theorem resized_toArray {α : Type} (entries : List (Option α)) (count : Nat) :
    Frame.resized entries.toArray (entries.length + count) =
      (entries ++ List.replicate count none).toArray := by
  simp [Frame.resized, List.take_of_length_le]

theorem modify_append_length {α : Type} (xs ys : List α) (k : Nat) (f : α → α) :
    (xs ++ ys).modify (xs.length + k) f = xs ++ ys.modify k f := by
  induction xs with
  | nil => simp
  | cons x xs ih => simpa [Nat.add_right_comm _ 1] using ih

theorem JType.width_eq_ite {ty : JType} (value : ty.isVoid = false) :
    ty.width = if ty.isWide = true then 2 else 1 := by
  cases ty with
  | void => contradiction
  | _ => rfl

/-- A variable that is written above all slots. -/
theorem written_append (slots : List LocalSlot) (name : Option String) {ty : JType}
    (value : ty.isVoid = false) :
    Frame.renamed (Frame.written (.ofSlots slots) slots.length ty) slots.length name =
      .ofSlots (slots ++ variableSlots name ty) := by
  have room {α : Type} (look : LocalSlot → Option α) (count : Nat) :=
    resized_toArray (slots.map look) count
  have first {α : Type} (look : LocalSlot → α) (ys : List α) f :=
    modify_append_length (slots.map look) ys 0 f
  have second {α : Type} (look : LocalSlot → α) (ys : List α) f :=
    modify_append_length (slots.map look) ys 1 f
  simp only [List.length_map, Nat.add_zero] at room first second
  cases wide : ty.isWide <;>
    simp [Frame.renamed, Frame.written, Frame.freed, Frame.typeIn?, Frame.extended,
      LocalTable.ofSlots, LocalTable.size, variableSlots, wide, JType.width_eq_ite value, room,
      List.replicate, first, second]

theorem slotsOf_eq_variableSlots (name : String) (ty : IntType) :
    slotsOf name ty = variableSlots (some name) ty.type := by
  cases ty <;> rfl

/-- A new variable is laid out above the others. -/
theorem addLocal_layout {f g : Frame} {slot : Slot}
    (laidOut : f.locals = .ofSlots (layout isStatic scope))
    (run : Frame.addLocal (some name) ty.type f = .ok slot g) :
    (layout isStatic scope).length ≤ 65535 ∧
      slot = (layout isStatic scope).length.toUInt16 ∧
      g.locals = .ofSlots (layout isStatic ((name, ty) :: scope)) ∧ g.scopes = f.scopes := by
  obtain ⟨few, -, rfl, rfl⟩ := Frame.addLocal_eq_ok.mp run
  rw [Frame.localCount, laidOut, LocalTable.size_ofSlots] at few ⊢
  refine ⟨few, rfl, ?_, rfl⟩
  rw [layout, slotsOf_eq_variableSlots, ← written_append _ _ (by cases ty <;> rfl)]
  simp [Frame.added, laidOut]

end Layout

/-! ## The values of variables -/

/-- The names and types of variables. -/
def IntEnv.scope (env : IntEnv) : List (String × IntType) :=
  env.map fun v => (v.name, v.type)

/-- The slots of the variables hold their values, which are in range. -/
def Stored (isStatic : Bool) (store : Store) : IntEnv → Prop
  | [] => True
  | v :: outer =>
      (layout isStatic (IntEnv.scope outer)).length ≤ 65535 ∧
        store (layout isStatic (IntEnv.scope outer)).length.toUInt16 =
          some (v.type.value v.value) ∧
        v.type.Contains v.value ∧ Stored isStatic store outer

section Values

variable {isStatic : Bool} {store : Store} {env : IntEnv} {name : String} {v : IntVar}

theorem toNat_toUInt16 {n : Nat} (small : n ≤ 65535) : n.toUInt16.toNat = n := by
  simp [Nat.toUInt16]
  omega

theorem indexIn?_receiverSlots {index : Nat}
    (found : Frame.indexIn? (.ofSlots (receiverSlots isStatic)) name = some index) :
    isStatic = false ∧ name = receiverName := by
  have named := (Frame.indexIn?_eq_some_iff.mp found).1
  rw [LocalTable.nameIn?_ofSlots] at named
  cases isStatic with
  | true => simp [receiverSlots] at named
  | false => cases index <;> simp_all [receiverSlots]

/-- The slot of a name that does not stand for the receiver holds the value of
its variable. -/
theorem Stored.lookup {index : Nat} (stored : Stored isStatic store env)
    (found : Frame.indexIn? (.ofSlots (layout isStatic (IntEnv.scope env))) name = some index)
    (spared : isStatic = true ∨ hidesReceiver (IntEnv.scope env) = true ∨ name ≠ receiverName) :
    ∃ v, IntEnv.lookup? env name = some v ∧ index ≤ 65535 ∧
      Frame.typeIn? (.ofSlots (layout isStatic (IntEnv.scope env))) index = some v.type.type ∧
      store index.toUInt16 = some (v.type.value v.value) ∧ v.type.Contains v.value := by
  induction env with
  | nil =>
      obtain ⟨rfl, rfl⟩ := indexIn?_receiverSlots found
      simp [hidesReceiver, IntEnv.scope] at spared
  | cons v outer ih =>
      obtain ⟨small, holds, contains, storedOuter⟩ := stored
      rw [IntEnv.scope, List.map_cons, indexIn?_layout_cons] at found
      by_cases isName : v.name = name
      · rw [if_pos isName] at found
        cases found
        refine ⟨v, by simp [IntEnv.lookup?, isName], small, ?_, holds, contains⟩
        simp [LocalTable.typeIn?_ofSlots, IntEnv.scope, getElem?_layout_cons]
      · rw [if_neg isName] at found
        have sparedOuter : isStatic = true ∨ hidesReceiver (IntEnv.scope outer) = true ∨
            name ≠ receiverName := by
          refine spared.imp_right fun either => either.elim (fun hides => ?_) .inr
          by_cases isReceiver : v.name = receiverName
          · exact .inr fun same => isName (isReceiver.trans same.symm)
          · exact .inl (by simpa [hidesReceiver, IntEnv.scope, isReceiver] using hides)
        obtain ⟨w, isVariable, rest⟩ := ih storedOuter found sparedOuter
        refine ⟨w, by simpa [IntEnv.lookup?, isName] using isVariable, ?_⟩
        rw [IntEnv.scope, List.map_cons, typeIn?_layout_cons_of_lt (indexIn?_ofSlots_lt found)]
        exact rest

@[simp]
theorem Store.set_self (store : Store) (slot : Slot) (value : Value) :
    store.set slot value slot = some value := by
  simp [Store.set]

/-- A write does not reach a value that ends below it or begins above it. -/
theorem Store.set_of_disjoint {slot other : Slot} {value held : Value}
    (holds : store other = some held)
    (disjoint : other.toNat + held.category.width ≤ slot.toNat ∨
      slot.toNat + value.category.width ≤ other.toNat) :
    store.set slot value other = some held := by
  have widthHeld := held.category.width_pos
  have widthValue := value.category.width_pos
  have apart : other ≠ slot := by
    rintro rfl
    omega
  have notSecond : ¬(value.category.isWide && decide (other.toNat = slot.toNat + 1)) = true := by
    intro second
    simp only [Bool.and_eq_true, decide_eq_true_eq] at second
    simp only [Category.width, second.1, if_true] at disjoint
    omega
  have notCut : ¬(decide (other.toNat + 1 = slot.toNat) &&
      (store other).any (·.category.isWide)) = true := by
    intro cut
    simp only [holds, Option.any_some, Bool.and_eq_true, decide_eq_true_eq] at cut
    simp only [Category.width, cut.2, if_true] at disjoint
    omega
  rw [Store.set, if_neg apart, if_neg notSecond, if_neg notCut, holds]

theorem width_category_value (ty : IntType) (n : Int) :
    (ty.value n).category.width = ty.type.width := by
  rw [IntType.category_value, JType.width_category ty.isVoid_type]

/-- A write above all variables concerns none of them. -/
theorem Stored.set_above {slot : Slot} (stored : Stored isStatic store env) (value : Value)
    (above : (layout isStatic (IntEnv.scope env)).length ≤ slot.toNat) :
    Stored isStatic (store.set slot value) env := by
  induction env with
  | nil => trivial
  | cons v outer ih =>
      obtain ⟨small, holds, contains, storedOuter⟩ := stored
      rw [IntEnv.scope, List.map_cons, length_layout_cons] at above
      refine ⟨small, Store.set_of_disjoint holds (.inl ?_), contains, ih storedOuter ?_⟩
      · rw [toNat_toUInt16 small, width_category_value]
        exact above
      · exact (Nat.le_add_right _ _).trans above

/-- A declaration: the value is written above all variables. -/
theorem Stored.declare (stored : Stored isStatic store env)
    (small : (layout isStatic (IntEnv.scope env)).length ≤ 65535)
    (contains : v.type.Contains v.value) :
    Stored isStatic
      (store.set (layout isStatic (IntEnv.scope env)).length.toUInt16 (v.type.value v.value))
      (v :: env) :=
  ⟨small, store.set_self _ _, contains, stored.set_above _ (toNat_toUInt16 small).ge⟩

/-- An assignment: the value is written to the slot of the variable. -/
theorem Stored.assign (stored : Stored isStatic store env)
    (isVariable : IntEnv.lookup? env name = some v) (n : Int) :
    ∃ index env', Frame.indexIn? (.ofSlots (layout isStatic (IntEnv.scope env))) name = some index ∧ index ≤ 65535 ∧
      index + v.type.type.width ≤ (layout isStatic (IntEnv.scope env)).length ∧
      IntEnv.assign? name n env = some env' ∧ IntEnv.scope env' = IntEnv.scope env ∧
      Stored isStatic (store.set index.toUInt16 (v.type.value (v.type.wrap n))) env' := by
  induction env with
  | nil => simp [IntEnv.lookup?] at isVariable
  | cons w outer ih =>
      obtain ⟨small, holds, contains, storedOuter⟩ := stored
      rw [IntEnv.scope, List.map_cons, indexIn?_layout_cons, length_layout_cons]
      by_cases isName : w.name = name
      · obtain rfl : w = v := by simpa [IntEnv.lookup?, isName] using isVariable
        refine ⟨_, { w with value := w.type.wrap n } :: outer, if_pos isName, small, le_rfl,
          if_pos isName, rfl, ?_⟩
        exact storedOuter.declare (v := { w with value := w.type.wrap n }) small
          (w.type.contains_wrap n)
      · have isOuter : IntEnv.lookup? outer name = some v := by
          simpa [IntEnv.lookup?, isName] using isVariable
        obtain ⟨index, env', found, indexSmall, below, assigned, same, storedAfter⟩ :=
          ih storedOuter isOuter
        refine ⟨index, w :: env', by rw [if_neg isName]; exact found, indexSmall,
          below.trans (Nat.le_add_right _ _), by simp [IntEnv.assign?, isName, assigned],
          by simpa [IntEnv.scope] using same, ?_⟩
        refine ⟨same ▸ small, ?_, contains, storedAfter⟩
        rw [same]
        apply Store.set_of_disjoint holds
        rw [toNat_toUInt16 small, toNat_toUInt16 indexSmall, width_category_value v.type]
        exact .inr below

/-- Each variable begins at a slot that has a number. -/
def Fits (isStatic : Bool) : List (String × IntType) → Prop
  | [] => True
  | _ :: outer => (layout isStatic outer).length ≤ 65535 ∧ Fits isStatic outer

theorem Fits.of_append {inner outer : List (String × IntType)}
    (fits : Fits isStatic (inner ++ outer)) : Fits isStatic outer := by
  induction inner with
  | nil => exact fits
  | cons first inner ih => exact ih fits.2

/-- The variables of a scope can be given values. -/
theorem Fits.exists_stored {scope : List (String × IntType)} (fits : Fits isStatic scope) :
    ∃ env store, IntEnv.scope env = scope ∧ Stored isStatic store env := by
  induction scope with
  | nil => exact ⟨[], fun _ => none, rfl, trivial⟩
  | cons first outer ih =>
      obtain ⟨env, store, rfl, stored⟩ := ih fits.2
      obtain ⟨name, ty⟩ := first
      exact ⟨⟨name, ty, ty.wrap 0⟩ :: env, _, rfl, stored.declare fits.1 (ty.contains_wrap 0)⟩

/-- Leaving a scope forgets its variables. -/
theorem Stored.of_append {inner : IntEnv} (stored : Stored isStatic store (inner ++ env)) :
    Stored isStatic store env := by
  induction inner with
  | nil => exact stored
  | cons v inner ih => exact ih stored.2.2.2

end Values

end JvmAssembler
