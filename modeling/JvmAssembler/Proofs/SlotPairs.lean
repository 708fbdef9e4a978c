import Mathlib
import JvmAssembler.Proofs.FrameRuns

/-!
# Wide variables take pairs of slots

Both slots of a wide variable have its type, and nothing tells the first from the
second.  Read from the bottom, however, a table says where wide variables begin,
as long as each has both its slots.

A write puts its type into one or two slots.  Where it begins with the first slot
of a wide variable and is narrow, it frees the second.  It does not look for a
wide variable that begins before the written slots or ends behind them, nor does
the end of a scope.

Main statement: a write gives its slots their type and keeps the names outside.
As long as no write and no end of a scope cuts a wide variable in another way,
every slot of a wide type is one of a pair, and a write frees the other halves of
the variables that it overwrites exactly if it does not cut one either.
-/

namespace JvmAssembler

theorem JType.width_eq_two_iff {ty : JType} : ty.width = 2 ↔ ty.isWide = true := by
  cases ty with
  | void => simp [width, isWide]
  | _ =>
      simp only [width]
      split <;> simp_all

namespace Frame

/-! ## Pairs -/

/-- Reading from the bottom, a wide variable begins at this slot. -/
def beginsWide (locals : LocalTable) : Nat → Bool
  | 0 => holdsWide locals 0
  | i + 1 => holdsWide locals (i + 1) && !beginsWide locals i

/-- The slot is the second one of a wide variable. -/
def continuesWide (locals : LocalTable) : Nat → Bool
  | 0 => false
  | i + 1 => beginsWide locals i

/-- Every wide variable has both its slots. -/
def Paired (locals : LocalTable) : Prop :=
  ∀ i, beginsWide locals i = true → typeIn? locals (i + 1) = typeIn? locals i

section

variable {locals locals' : LocalTable} {i j k : Nat} {ty : JType}

theorem beginsWide_eq (locals : LocalTable) (i : Nat) :
    beginsWide locals i = (holdsWide locals i && !continuesWide locals i) := by
  cases i <;> simp [beginsWide, continuesWide]

theorem holdsWide_of_beginsWide (begins : beginsWide locals i = true) :
    holdsWide locals i = true := by
  rw [beginsWide_eq, Bool.and_eq_true] at begins
  exact begins.1

/-- No wide variable begins inside another. -/
theorem not_beginsWide_succ (begins : beginsWide locals i = true) :
    beginsWide locals (i + 1) = false := by
  simp [beginsWide, begins]

/-- Where variables begin depends on the types up to there. -/
theorem beginsWide_congr {bound : Nat}
    (same : ∀ j < bound, typeIn? locals' j = typeIn? locals j) (below : i < bound) :
    beginsWide locals' i = beginsWide locals i := by
  induction i with
  | zero => simp [beginsWide, holdsWide, same 0 below]
  | succ i ih => simp [beginsWide, holdsWide, same (i + 1) below, ih (by omega)]

theorem continuesWide_congr {bound : Nat}
    (same : ∀ j < bound, typeIn? locals' j = typeIn? locals j) (le : k ≤ bound) :
    continuesWide locals' k = continuesWide locals k := by
  cases k with
  | zero => rfl
  | succ k => exact beginsWide_congr same le

/-- Every slot of a wide type belongs to one pair. -/
theorem Paired.existsUnique_pair (paired : Paired locals) (typed : typeIn? locals i = some ty)
    (wide : ty.isWide = true) :
    ∃! first, beginsWide locals first = true ∧ (i = first ∨ i = first + 1) ∧
      typeIn? locals first = some ty ∧ typeIn? locals (first + 1) = some ty := by
  have holds : holdsWide locals i = true := by simp [holdsWide, typed, wide]
  by_cases begins : beginsWide locals i = true
  · refine ⟨i, ⟨begins, .inl rfl, typed, (paired i begins).trans typed⟩, ?_⟩
    rintro first ⟨begins', rfl | rfl, -⟩
    · rfl
    · simp [not_beginsWide_succ begins'] at begins
  · have continues : continuesWide locals i = true := by
      simpa [beginsWide_eq, holds] using begins
    obtain _ | first := i
    · contradiction
    · have same := paired first continues
      refine ⟨first, ⟨continues, .inr rfl, same.symm.trans typed, typed⟩, ?_⟩
      rintro other ⟨begins', rfl | next, -⟩
      · exact absurd begins' begins
      · omega

/-- Behind the table no variable goes on. -/
theorem Paired.continuesWide_size (paired : Paired locals) :
    continuesWide locals locals.size = false := by
  cases size : locals.size with
  | zero => rfl
  | succ last =>
      by_contra begins
      have begins : beginsWide locals last = true := by simpa [continuesWide] using begins
      have behind : typeIn? locals (last + 1) = none := typeIn?_eq_none_of_size_le size.le
      have holds := holdsWide_of_beginsWide begins
      rw [paired last begins] at behind
      simp [holdsWide, behind] at holds

/-! ## Writes -/

/-- The written slots do not cut a wide variable, but for the second slot of one
that begins with them. -/
structure WholeWrite (locals : LocalTable) (index : Nat) (ty : JType) : Prop where
  first : continuesWide locals index = false
  last : ty.isWide = true → continuesWide locals (index + 2) = false

theorem WholeWrite.behind (paired : Paired locals) : WholeWrite locals locals.size ty where
  first := paired.continuesWide_size
  last _ := by
    have behind : typeIn? locals (locals.size + 1) = none :=
      typeIn?_eq_none_of_size_le (Nat.le_succ _)
    simp [continuesWide, beginsWide, holdsWide, behind]

theorem WholeWrite.beginsWide_eq_holdsWide (whole : WholeWrite locals i ty) :
    beginsWide locals i = holdsWide locals i := by
  simp [beginsWide_eq, whole.first]

theorem typeIn?_written_elsewhere (value : ty.isVoid = false) (notFirst : j ≠ i)
    (notNext : j ≠ i + 1) : typeIn? (written locals i ty) j = typeIn? locals j := by
  rw [typeIn?_written locals i value, if_neg (by omega), if_neg (by omega)]

/-- A wide variable begins with the written slot if the written type is wide. -/
theorem WholeWrite.beginsWide_written_self (whole : WholeWrite locals i ty)
    (value : ty.isVoid = false) : beginsWide (written locals i ty) i = ty.isWide := by
  have below : ∀ j < i, typeIn? (written locals i ty) j = typeIn? locals j :=
    fun j lower => typeIn?_written_elsewhere value (by omega) (by omega)
  have continues : continuesWide (written locals i ty) i = false := by
    rw [continuesWide_congr below le_rfl, whole.first]
  simp [beginsWide_eq, continues, holdsWide, typeIn?_written locals i value]

/-- A wide write takes the next slot, in which nothing began, and a narrow write frees it
if it was the second slot of a variable. -/
theorem WholeWrite.beginsWide_written_succ (whole : WholeWrite locals i ty)
    (value : ty.isVoid = false) :
    beginsWide (written locals i ty) (i + 1) = beginsWide locals (i + 1) := by
  have here := whole.beginsWide_written_self value
  by_cases wide : ty.isWide = true
  · have old : beginsWide locals (i + 1) = false := whole.last wide
    rw [old, beginsWide, here, wide]
    simp
  · have narrow : ¬ty.width = 2 := mt JType.width_eq_two_iff.mp wide
    have holds : holdsWide (written locals i ty) (i + 1) =
        (holdsWide locals (i + 1) && !holdsWide locals i) := by
      rw [holdsWide, typeIn?_written locals i value, if_neg (by omega)]
      cases freed : holdsWide locals i with
      | true => simp
      | false => simp [holdsWide]
    simp [beginsWide, here, holds, whole.beginsWide_eq_holdsWide, wide]

/-- A write changes where wide variables begin at its first slot only. -/
theorem WholeWrite.beginsWide_written (whole : WholeWrite locals i ty) (value : ty.isVoid = false)
    (k : Nat) :
    beginsWide (written locals i ty) k = if k = i then ty.isWide else beginsWide locals k := by
  rcases Nat.lt_trichotomy k i with lower | rfl | higher
  · rw [if_neg (by omega)]
    refine beginsWide_congr (fun j below => ?_) lower
    exact typeIn?_written_elsewhere value (by omega) (by omega)
  · rw [if_pos rfl, whole.beginsWide_written_self value]
  · rw [if_neg (by omega)]
    induction k, higher using Nat.le_induction with
    | base => exact whole.beginsWide_written_succ value
    | succ k higher ih =>
        have same : typeIn? (written locals i ty) (k + 1) = typeIn? locals (k + 1) :=
          typeIn?_written_elsewhere value (by omega) (by omega)
        simp [beginsWide, holdsWide, same, ih]

/-- A write that cuts no variable keeps the pairs. -/
theorem Paired.written (paired : Paired locals) (whole : WholeWrite locals i ty)
    (value : ty.isVoid = false) : Paired (written locals i ty) := by
  intro k begins
  have types := typeIn?_written locals i value
  rw [whole.beginsWide_written value] at begins
  by_cases here : k = i
  · subst here
    rw [if_pos rfl] at begins
    simp [types, JType.width_eq_two_iff.mpr begins]
  · rw [if_neg here] at begins
    have notBefore : k + 1 ≠ i := by
      rintro rfl
      simpa [continuesWide, begins] using whole.first
    have kept : typeIn? (Frame.written locals i ty) k = typeIn? locals k := by
      rw [types, if_neg, if_neg]
      · rintro ⟨rfl, freed⟩
        rw [← whole.beginsWide_eq_holdsWide] at freed
        simp [not_beginsWide_succ freed] at begins
      · rintro (rfl | ⟨rfl, wide⟩)
        · exact here rfl
        · simpa [continuesWide, begins] using whole.last (JType.width_eq_two_iff.mp wide)
    rw [kept, typeIn?_written_elsewhere value (by omega) (by omega)]
    exact paired k begins

theorem Paired.congr (paired : Paired locals)
    (same : ∀ j, typeIn? locals' j = typeIn? locals j) : Paired locals' := by
  intro k begins
  rw [beginsWide_congr (fun j _ => same j) (Nat.lt_succ_self k)] at begins
  rw [same, same, paired k begins]

theorem typeIn?_take_of_lt {count : Nat} (lower : j < count) :
    typeIn? (locals.take count) j = typeIn? locals j := by
  rw [typeIn?_take, if_pos lower]

/-- Cutting a table between variables keeps the pairs. -/
theorem Paired.take (paired : Paired locals) {count : Nat}
    (between : continuesWide locals count = false) : Paired (locals.take count) := by
  intro k begins
  have below : k < count := by
    by_contra outside
    have holds := holdsWide_of_beginsWide begins
    simp [holdsWide, typeIn?_take, outside] at holds
  rw [beginsWide_congr (fun j => typeIn?_take_of_lt) below] at begins
  have inside : k + 1 < count := by
    refine lt_of_le_of_ne below ?_
    rintro rfl
    simp [continuesWide, begins] at between
  rw [typeIn?_take_of_lt below, typeIn?_take_of_lt inside, paired k begins]

end

/-! ## Names -/

section

variable {f g : Frame} {name : String}

/-- There are as many names as types, at slots that have a 16-bit number. -/
structure NamesSmall (f : Frame) : Prop where
  matched : f.locals.Matched
  small : ∀ i, (nameIn? f.locals i).isSome → i ≤ 65535

theorem isSome_nameIn?_of_written {locals : LocalTable} {index i : Nat} {ty : JType}
    (matched : locals.Matched) (named : (nameIn? (written locals index ty) i).isSome) :
    (nameIn? locals i).isSome := by
  rw [nameIn?_written matched] at named
  split at named
  · contradiction
  · exact named

theorem Change.namesSmall {step : FrameStep} (change : Change f step g) (names : f.NamesSmall) :
    g.NamesSmall := by
  obtain ⟨matched, small⟩ := names
  refine ⟨change.matched matched, ?_⟩
  cases change with
  | add few =>
      intro i named
      by_cases here : i = f.localCount
      · exact here ▸ few
      · have old : (nameIn? (written f.locals f.locals.size _) i).isSome :=
          nameIn?_renamed here ▸ named
        exact small i (isSome_nameIn?_of_written matched old)
  | write => exact fun i named => small i (isSome_nameIn?_of_written matched named)
  | writeNamed => exact fun i named => small i (isSome_nameIn?_of_written matched named)
  | closeScope =>
      intro i named
      change (nameIn? (f.locals.take _) i).isSome at named
      rw [nameIn?_take] at named
      split at named
      · exact small i named
      · contradiction
  | _ => exact small

theorem namesSmall_run (steps : List FrameStep) : (run {} steps).NamesSmall :=
  invariant_run ⟨rfl, by simp [nameIn?]⟩ Change.namesSmall steps

end

/-! ## Runs that cut no variable -/

/-- Wide variables have both their slots, and names stand at first slots. -/
structure Tidy (locals : LocalTable) : Prop where
  matched : locals.Matched
  paired : Paired locals
  named_first : ∀ i, (nameIn? locals i).isSome → continuesWide locals i = false

section

variable {locals : LocalTable} {index : Nat} {ty : JType}

/-- Which slots continue a variable after a write. -/
theorem WholeWrite.continuesWide_written (whole : WholeWrite locals index ty)
    (value : ty.isVoid = false) (k : Nat) :
    continuesWide (written locals index ty) k =
      if k = index + 1 then ty.isWide else continuesWide locals k := by
  cases k with
  | zero => simp [continuesWide]
  | succ k => simp [continuesWide, whole.beginsWide_written value]

theorem Tidy.written (tidy : Tidy locals) (whole : WholeWrite locals index ty)
    (value : ty.isVoid = false) : Tidy (written locals index ty) where
  matched := tidy.matched.written index ty
  paired := tidy.paired.written whole value
  named_first i named := by
    rw [whole.continuesWide_written value]
    split
    · rename_i second
      rw [nameIn?_written tidy.matched] at named
      cases wide : ty.isWide with
      | false => rfl
      | true => simp [second, JType.width_eq_two_iff.mpr wide] at named
    · exact tidy.named_first i (isSome_nameIn?_of_written tidy.matched named)

theorem Tidy.added (tidy : Tidy locals) (value : ty.isVoid = false) (name : Option String) :
    Tidy (renamed (Frame.written locals locals.size ty) locals.size name) := by
  have whole : WholeWrite locals locals.size ty := .behind tidy.paired
  have later := tidy.written whole value
  have types := typeIn?_renamed (Frame.written locals locals.size ty) locals.size name
  refine ⟨later.matched.renamed _ name, later.paired.congr types, fun i named => ?_⟩
  rw [continuesWide_congr (fun j _ => types j) le_rfl]
  by_cases here : i = locals.size
  · rw [here, whole.continuesWide_written value, if_neg (by omega)]
    exact whole.first
  · exact later.named_first i (nameIn?_renamed here ▸ named)

theorem Tidy.take (tidy : Tidy locals) {count : Nat}
    (between : continuesWide locals count = false) : Tidy (locals.take count) where
  matched := tidy.matched.take count
  paired := tidy.paired.take between
  named_first i named := by
    rw [nameIn?_take] at named
    split at named
    · rename_i below
      rw [continuesWide_congr (fun j => typeIn?_take_of_lt) below.le]
      exact tidy.named_first i named
    · contradiction

end

end Frame

/-- The operation cuts no wide variable: a write cuts none, but for the second slot of
one that begins with it, and a scope does not begin inside of one that it ends. -/
def FrameStep.Whole (f : Frame) : FrameStep → Prop
  | .setLocal index ty => Frame.IsStorable ty → Frame.WholeWrite f.locals index.toNat ty
  | .setNamedLocal name ty => ∀ index, Frame.resolveIndex name f = .ok index f →
      ty.isWide = true → Frame.continuesWide f.locals (index.toNat + 2) = false
  | .endScope => ∀ start ∈ f.scopes.head?, Frame.continuesWide f.locals start = false
  | _ => True

namespace Frame

/-- No operation of the run cuts a wide variable. -/
def WholeRun (f : Frame) : List FrameStep → Prop
  | [] => True
  | step :: rest => step.Whole f ∧ WholeRun (step.apply f) rest

section

variable {f g : Frame}

theorem NamesSmall.toNat_eq {name : String} {index : Nat} (names : f.NamesSmall)
    (bound : indexIn? f.locals name = some index) :
    index.toUInt16.toNat = index := by
  have named := (indexIn?_eq_some_iff.mp bound).1
  exact UInt16.toNat_ofNat_of_lt' (Nat.lt_succ_of_le (names.small index (by simp [named])))

/-- A write through a name begins with the first slot of what it replaces. -/
theorem Tidy.wholeWrite {name : String} {index : Nat} {ty : JType} (tidy : Tidy f.locals)
    (small : f.NamesSmall) (bound : indexIn? f.locals name = some index)
    (last : ty.isWide = true → continuesWide f.locals (index.toUInt16.toNat + 2) = false) :
    WholeWrite f.locals index.toUInt16.toNat ty where
  first := by
    have named := (indexIn?_eq_some_iff.mp bound).1
    rw [small.toNat_eq bound]
    exact tidy.named_first index (by simp [named])
  last := last

theorem Change.tidy {step : FrameStep} (change : Change f step g) (whole : step.Whole f)
    (small : f.NamesSmall) (tidy : Tidy f.locals) : Tidy g.locals := by
  cases change with
  | add _ storable => exact tidy.added storable.value _
  | write storable => exact tidy.written (whole storable) storable.value
  | writeNamed bound storable =>
      have last := whole _ (resolveIndex_eq_ok.mpr ⟨rfl, _, bound, rfl⟩)
      exact tidy.written (tidy.wholeWrite small bound last) storable.value
  | closeScope scopes_eq => exact tidy.take (whole _ (by simp [scopes_eq]))
  | _ => exact tidy

theorem tidy_run {steps : List FrameStep} (whole : f.WholeRun steps) (small : f.NamesSmall)
    (tidy : Tidy f.locals) : Tidy (f.run steps).locals := by
  induction steps generalizing f with
  | nil => exact tidy
  | cons step steps ih =>
      have change := Change.of_step (f := f) step
      exact ih whole.2 (change.namesSmall small) (change.tidy whole.1 small tidy)

end

/-! ## What a write does to the rest of the table -/

/-- A slot gets another type, by its number or by a name that stands for it. -/
inductive Rewrites (f : Frame) (index : Slot) (ty : JType) (g : Frame) : Prop where
  | bySlot (ran : setLocal index ty f = .ok () g)
  | byName (name : String) (resolved : resolveIndex name f = .ok index f)
      (ran : setNamedLocal name ty f = .ok index g)

/-- The slot is none of those that a variable of this type takes from `index` on. -/
def Outside (index : Nat) (ty : JType) (i : Nat) : Prop :=
  i < index ∨ index + ty.width ≤ i

/-- The slot is the other one of a wide variable with one slot among those that a
variable of this type takes from `index` on. -/
def LosesHalf (locals : LocalTable) (index : Nat) (ty : JType) (i : Nat) : Prop :=
  ∃ j, index ≤ j ∧ j < index + ty.width ∧
    (beginsWide locals j = true ∧ i = j + 1 ∨ beginsWide locals i = true ∧ j = i + 1)

/-- Outside of the written slots, the other halves of overwritten variables are freed and
all other types are as before. -/
def FreesHalves (f : Frame) (index : Nat) (ty : JType) (g : Frame) : Prop :=
  ∀ i, Outside index ty i →
    (LosesHalf f.locals index ty i → g.slotType? i = none) ∧
    (¬LosesHalf f.locals index ty i → g.slotType? i = f.slotType? i)

section

variable {f g : Frame} {index : Slot} {ty : JType}

theorem Rewrites.storable_and_eq (rewrites : Rewrites f index ty g) :
    IsStorable ty ∧ g = f.writeSlots index.toNat ty := by
  cases rewrites with
  | bySlot ran => exact setLocal_eq_ok.mp ran
  | byName _ resolved ran =>
      obtain ⟨-, k, bound, rfl⟩ := resolveIndex_eq_ok.mp resolved
      rw [setNamedLocal_of_bound ty bound] at ran
      obtain ⟨_, middle, wrote, returned⟩ := bind_eq_ok.mp ran
      obtain ⟨-, rfl⟩ := pure_eq_ok.mp returned
      exact setLocal_eq_ok.mp wrote

theorem slotType?_writeSlots (value : ty.isVoid = false) (i k : Nat) :
    (f.writeSlots k ty).slotType? i =
      if i = k ∨ (i = k + 1 ∧ ty.width = 2) then some ty
      else if i = k + 1 ∧ holdsWide f.locals k = true then none else f.slotType? i :=
  typeIn?_written f.locals k value i

/-- A name for a slot outside of those written means what it meant. -/
theorem indexIn?_writeSlots {name : String} {k i : Nat} (matched : f.locals.Matched)
    (bound : indexIn? f.locals name = some i) (outside : Outside k ty i) :
    indexIn? (f.writeSlots k ty).locals name = some i := by
  obtain ⟨named, latest⟩ := indexIn?_eq_some_iff.mp bound
  refine indexIn?_eq_some_iff.mpr ⟨?_, fun j above => ?_⟩
  · rw [writeSlots, nameIn?_written matched, if_neg]
    · exact named
    · rintro ⟨rfl, wide⟩
      unfold Outside at outside
      omega
  · rw [writeSlots, nameIn?_written matched]
    split
    · simp
    · exact latest j above

/-- Where no variable is cut in another way, only the slot after a narrow write loses its
other half. -/
theorem WholeWrite.losesHalf_iff {locals : LocalTable} {k i : Nat}
    (whole : WholeWrite locals k ty) (value : ty.isVoid = false) (outside : Outside k ty i) :
    LosesHalf locals k ty i ↔ i = k + 1 ∧ holdsWide locals k = true := by
  unfold Outside at outside
  have width := JType.width_of_value value
  constructor
  · rintro ⟨j, least, below, ⟨begins, rfl⟩ | ⟨begins, rfl⟩⟩
    · obtain rfl : j = k := by
        by_contra differs
        obtain rfl : j = k + 1 := by omega
        have wide : ty.isWide = true := JType.width_eq_two_iff.mp (by omega)
        simpa [continuesWide, begins] using whole.last wide
      exact ⟨rfl, holdsWide_of_beginsWide begins⟩
    · obtain rfl : i + 1 = k := by omega
      simpa [continuesWide, begins] using whole.first
  · rintro ⟨rfl, holds⟩
    exact ⟨k, le_rfl, by omega, .inl ⟨whole.beginsWide_eq_holdsWide.trans holds, rfl⟩⟩

theorem isSome_slotType?_of_beginsWide {i : Nat} (begins : beginsWide f.locals i = true) :
    (f.slotType? i).isSome := by
  have holds := holdsWide_of_beginsWide begins
  rw [holdsWide] at holds
  rw [slotType?]
  cases typed : typeIn? f.locals i with
  | some _ => rfl
  | none => simp [typed] at holds

/-- A write that cuts no variable in another way frees the halves that it should free. -/
theorem WholeWrite.freesHalves {k : Nat} (whole : WholeWrite f.locals k ty)
    (value : ty.isVoid = false) : FreesHalves f k ty (f.writeSlots k ty) := by
  intro i outside
  have notWritten : ¬(i = k ∨ (i = k + 1 ∧ ty.width = 2)) := by
    have width := JType.width_of_value value
    unfold Outside at outside
    omega
  rw [whole.losesHalf_iff value outside, slotType?_writeSlots value, if_neg notWritten]
  exact ⟨fun loses => if_pos loses, fun keeps => if_neg keeps⟩

/-- A write inside of a variable leaves the slot before as it is, and a wide write in front
of one leaves its second slot. -/
theorem wholeWrite_of_freesHalves {k : Nat} (paired : Paired f.locals)
    (value : ty.isVoid = false) (frees : FreesHalves f k ty (f.writeSlots k ty)) :
    WholeWrite f.locals k ty where
  first := by
    by_contra continues
    obtain _ | first := k
    · simp [continuesWide] at continues
    · have begins : beginsWide f.locals first = true := by simpa [continuesWide] using continues
      have width := JType.width_of_value value
      have freed := (frees first (.inl (Nat.lt_succ_self _))).1
        ⟨first + 1, le_rfl, by omega, .inr ⟨begins, rfl⟩⟩
      rw [slotType?_writeSlots value, if_neg (by omega), if_neg (by omega)] at freed
      simpa [freed] using isSome_slotType?_of_beginsWide begins
  last wide := by
    by_contra continues
    have begins : beginsWide f.locals (k + 1) = true := by simpa [continuesWide] using continues
    have two := JType.width_eq_two_iff.mpr wide
    have freed := (frees (k + 2) (.inr (by omega))).1
      ⟨k + 1, by omega, by omega, .inl ⟨begins, rfl⟩⟩
    rw [slotType?_writeSlots value, if_neg (by omega), if_neg (by omega)] at freed
    have same : f.slotType? (k + 2) = f.slotType? (k + 1) := paired (k + 1) begins
    simpa [← same, freed] using isSome_slotType?_of_beginsWide begins

end

/-- After any operations, a rewritten slot has its type, in both slots if the type is
wide.  Of the other slots only the next loses its type, if the slot had a wide one, and
names for other slots mean what they meant.  If no operation cut a wide variable, every
slot of a wide type belongs to exactly one pair, and rewriting a slot frees the other
halves of the variables that it overwrites, and nothing else, exactly if it cuts none but
one that begins with the slot. -/
theorem rewrites_keep (steps : List FrameStep) :
    let f := run {} steps
    (∀ index ty g, Rewrites f index ty g →
      (∀ i, index.toNat ≤ i → i < index.toNat + ty.width → g.slotType? i = some ty) ∧
      (∀ i, Outside index.toNat ty i → g.slotType? i =
        if i = index.toNat + 1 ∧ holdsWide f.locals index.toNat = true then none
        else f.slotType? i) ∧
      ∀ name slot, resolveIndex name f = .ok slot f → Outside index.toNat ty slot.toNat →
        resolveIndex name g = .ok slot g) ∧
    (WholeRun {} steps →
      (∀ i ty, f.slotType? i = some ty → ty.isWide = true →
        ∃! first, beginsWide f.locals first = true ∧ (i = first ∨ i = first + 1) ∧
          f.slotType? first = some ty ∧ f.slotType? (first + 1) = some ty) ∧
      ∀ index ty g, Rewrites f index ty g →
        (FreesHalves f index.toNat ty g ↔ WholeWrite f.locals index.toNat ty)) := by
  intro f
  have small : f.NamesSmall := namesSmall_run steps
  constructor
  · intro index ty g rewrites
    obtain ⟨storable, rfl⟩ := rewrites.storable_and_eq
    have width := JType.width_of_value storable.value
    refine ⟨fun i least below => ?_, fun i outside => ?_, fun name slot resolved outside => ?_⟩
    · rw [slotType?_writeSlots storable.value, if_pos (by omega)]
    · unfold Outside at outside
      rw [slotType?_writeSlots storable.value, if_neg (by omega)]
    · obtain ⟨-, k, bound, rfl⟩ := resolveIndex_eq_ok.mp resolved
      rw [small.toNat_eq bound] at outside
      exact resolveIndex_eq_ok.mpr ⟨rfl, k, indexIn?_writeSlots small.matched bound outside, rfl⟩
  · intro whole
    have empty : Tidy {} :=
      ⟨rfl, fun i begins => by simp [typeIn?], fun i named => by simp [nameIn?] at named⟩
    have paired : Paired f.locals := (tidy_run whole (namesSmall_run []) empty).paired
    refine ⟨fun i ty typed wide => paired.existsUnique_pair typed wide, ?_⟩
    intro index ty g rewrites
    obtain ⟨storable, rfl⟩ := rewrites.storable_and_eq
    exact ⟨wholeWrite_of_freesHalves paired storable.value,
      fun wholeWrite => wholeWrite.freesHalves storable.value⟩

end Frame

namespace Sample

open JvmAssembler.Frame

/-- A wide variable in a scope of its own, behind one that is made narrow and wide again. -/
def wideInScope : List FrameStep :=
  [.addLocal (some "w") .long, .setNamedLocal "w" .int, .setLocal 0 .double, .beginScope,
    .addLocal (some "x") .long]

/-- Made narrow through its name, the outer variable gives one slot back, and the inner one
keeps its pair. -/
theorem wideInScope_rewrites_keep :
    WholeRun {} wideInScope ∧
    ∃ g, Rewrites (run {} wideInScope) 0 .int g ∧ g.slotType? 0 = some .int ∧
      resolveIndex "x" g = .ok 2 g ∧ FreesHalves (run {} wideInScope) 0 .int g ∧
      ∃! first, beginsWide (run {} wideInScope).locals first = true ∧
        (3 = first ∨ 3 = first + 1) ∧ (run {} wideInScope).slotType? first = some .long ∧
        (run {} wideInScope).slotType? (first + 1) = some .long := by
  have whole : WholeRun {} wideInScope := by
    refine ⟨trivial, ?_, ?_, trivial, trivial, trivial⟩
    · rintro index - ⟨⟩
    · exact fun _ => ⟨by decide, by decide⟩
  obtain ⟨keeps, ofWhole⟩ := rewrites_keep wideInScope
  have rewrites : Rewrites (run {} wideInScope) 0 .int ((run {} wideInScope).writeSlots 0 .int) :=
    .byName "w" rfl rfl
  obtain ⟨typed, -, named⟩ := keeps 0 .int _ rewrites
  refine ⟨whole, _, rewrites, typed 0 (by decide) (by decide), ?_, ?_, ?_⟩
  · exact named "x" 2 rfl (.inr (by decide))
  · exact ((ofWhole whole).2 0 .int _ rewrites).mpr ⟨by decide, by decide⟩
  · exact (ofWhole whole).1 3 .long (by decide) (by decide)

/-- A variable written over the second slot of a `long`: the first slot remains a `long`
without a partner, and the variable behind is taken for the other half. -/
theorem secondHalf_not_freesHalves :
    ∃ g, Rewrites (run {} [.addLocal none .long, .addLocal (some "x") .int]) 1 .int g ∧
      ¬FreesHalves (run {} [.addLocal none .long, .addLocal (some "x") .int]) 1 .int g ∧
      g.slotType? 0 = some .long ∧ g.slotType? 1 = some .int ∧ g.slotType? 2 = none ∧
      resolveIndex "x" g = .ok 2 g := by
  refine ⟨_, .bySlot rfl, fun frees => ?_, by decide, by decide, by decide, rfl⟩
  have freed := (frees 0 (.inl (by decide))).1
    ⟨1, by decide, by decide, .inr ⟨by decide, rfl⟩⟩
  revert freed
  decide

end Sample

end JvmAssembler
