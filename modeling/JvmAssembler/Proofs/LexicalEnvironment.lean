import Mathlib
import JvmAssembler.Proofs.FrameRuns
import JvmAssembler.Proofs.ScopeLayout

/-!
# The table of slots as a lexical environment

Declarations and scopes by themselves, without numbered slots, are a stack of
scopes that are lists of bindings.  A frame has one flat table of slots instead,
which it searches from the top and cuts where a scope ends.

Main statement: after any declarations and scopes, failing ones included, the
table is that of the bindings that are still open, in their order: each has its
own slots, a name stands for the first slot of the latest binding that has it, and
the greatest number of slots is the greatest width that the bindings had.
-/

namespace JvmAssembler

/-- A declared variable. -/
structure Binding where
  name : Option String
  type : JType
  storable : Frame.IsStorable type

/-- Scopes with their bindings in the order of declaration. -/
structure Environment where
  /-- The bindings of the innermost scope. -/
  current : List Binding := []
  /-- The bindings of the scopes around it, innermost first. -/
  outer : List (List Binding) := []

/-- A declaration, or one end of a scope. -/
inductive LexicalStep where
  | add (name : Option String) (ty : JType)
  | openScope
  | closeScope

/-- The operation of the frame. -/
def LexicalStep.frameStep : LexicalStep → FrameStep
  | .add name ty => .addLocal name ty
  | .openScope => .beginScope
  | .closeScope => .endScope

instance : DecidablePred Frame.IsStorable := fun ty =>
  inferInstanceAs (Decidable ¬(ty = .void ∨ ty = .null))

namespace Environment

/-- Declare a variable in the innermost scope, or begin or end a scope.  What no variable
can hold is not declared, and where no scope is open none ends. -/
def step (e : Environment) : LexicalStep → Environment
  | .add name ty =>
      if storable : Frame.IsStorable ty then
        { e with current := e.current ++ [⟨name, ty, storable⟩] }
      else e
  | .openScope => { current := [], outer := e.current :: e.outer }
  | .closeScope =>
      match e.outer with
      | [] => e
      | scope :: rest => { current := scope, outer := rest }

def run (e : Environment) : List LexicalStep → Environment
  | [] => e
  | step :: rest => (e.step step).run rest

theorem run_concat (e : Environment) (steps : List LexicalStep) (step : LexicalStep) :
    e.run (steps ++ [step]) = (e.run steps).step step := by
  induction steps generalizing e with
  | nil => rfl
  | cons first steps ih => exact ih (e.step first)

/-- All open bindings, the latest last. -/
def bindings (e : Environment) : List Binding :=
  e.outer.reverse.flatten ++ e.current

end Environment

namespace Binding

/-- The slots that bindings take together. -/
def width (bindings : List Binding) : Nat :=
  JType.totalWidth (bindings.map (·.type))

/-- The slot is one of those that begin behind the earlier bindings. -/
def Owns (bindings : List Binding) (k i : Nat) : Prop :=
  ∃ b ∈ bindings[k]?, width (bindings.take k) ≤ i ∧ i < width (bindings.take k) + b.type.width

/-- The table of the slots of bindings. -/
def table (bindings : List Binding) : List LocalSlot :=
  bindings.flatMap fun b => variableSlots b.name b.type

@[simp]
theorem width_append (first second : List Binding) :
    width (first ++ second) = width first + width second := by
  simp [width, JType.totalWidth_append]

@[simp]
theorem width_singleton (b : Binding) : width [b] = b.type.width := by
  simp [width]

@[simp]
theorem table_append (first second : List Binding) :
    table (first ++ second) = table first ++ table second := by
  simp [table]

theorem length_variableSlots (b : Binding) :
    (variableSlots b.name b.type).length = b.type.width := by
  rw [JType.width_eq_ite b.storable.value, variableSlots]
  split <;> rfl

@[simp]
theorem length_table (bindings : List Binding) : (table bindings).length = width bindings := by
  induction bindings with
  | nil => rfl
  | cons b rest ih =>
      have split : table (b :: rest) = variableSlots b.name b.type ++ table rest := rfl
      rw [split, List.length_append, length_variableSlots, ih]
      rfl

theorem getElem?_variableSlots {b : Binding} {j : Nat} (inside : j < b.type.width) :
    (variableSlots b.name b.type)[j]? =
      some ⟨some b.type, if j = 0 then b.name else none⟩ := by
  rw [JType.width_eq_ite b.storable.value] at inside
  unfold variableSlots
  split at inside <;> rename_i wide
  · obtain rfl | rfl : j = 0 ∨ j = 1 := by omega
    · simp
    · simp [wide]
  · obtain rfl : j = 0 := by omega
    simp

section

variable {bindings : List Binding} {k m i : Nat} {b : Binding}

theorem width_take_mono (le : k ≤ m) : width (bindings.take k) ≤ width (bindings.take m) := by
  obtain ⟨between, split⟩ := List.take_prefix_take_left (l := bindings) le
  rw [← split, width_append]
  exact Nat.le_add_right _ _

theorem width_take_le (bindings : List Binding) (k : Nat) :
    width (bindings.take k) ≤ width bindings := by
  conv_rhs => rw [← List.take_append_drop k bindings, width_append]
  exact Nat.le_add_right _ _

theorem width_take_succ (at_k : bindings[k]? = some b) :
    width (bindings.take (k + 1)) = width (bindings.take k) + b.type.width := by
  rw [List.take_add_one, at_k, width_append, Option.toList_some, width_singleton]

/-- What the table says about an owned slot. -/
theorem getElem?_table (at_k : bindings[k]? = some b) (least : width (bindings.take k) ≤ i)
    (below : i < width (bindings.take k) + b.type.width) :
    (table bindings)[i]? =
      some ⟨some b.type, if i = width (bindings.take k) then b.name else none⟩ := by
  have split : table bindings =
      table (bindings.take k) ++ (variableSlots b.name b.type ++ table (bindings.drop (k + 1))) := by
    conv_lhs => rw [← List.take_append_drop k bindings, List.drop_eq_getElem?_toList_append, at_k]
    simp [table]
  have inside : i - width (bindings.take k) < b.type.width := by omega
  rw [split, List.getElem?_append_right (by simpa using least), length_table,
    List.getElem?_append_left (by rwa [length_variableSlots]), getElem?_variableSlots inside]
  have first : i - width (bindings.take k) = 0 ↔ i = width (bindings.take k) := by omega
  simp [first]

theorem Owns.lt_of_lt {j : Nat} (owns : Owns bindings k i) (ownsLater : Owns bindings m j)
    (before : k < m) : i < j := by
  obtain ⟨b, at_k, -, below⟩ := owns
  obtain ⟨-, -, least, -⟩ := ownsLater
  calc i < width (bindings.take (k + 1)) := by rwa [width_take_succ at_k]
    _ ≤ width (bindings.take m) := width_take_mono before
    _ ≤ j := least

theorem Owns.unique (owns : Owns bindings k i) (ownsToo : Owns bindings m i) : k = m := by
  rcases Nat.lt_trichotomy k m with before | same | behind
  · exact absurd (owns.lt_of_lt ownsToo before) (Nat.lt_irrefl i)
  · exact same
  · exact absurd (ownsToo.lt_of_lt owns behind) (Nat.lt_irrefl i)

theorem exists_owns (inside : i < width bindings) : ∃ k, Owns bindings k i := by
  induction bindings using List.reverseRecOn with
  | nil => contradiction
  | append_singleton earlier b ih =>
      rw [width_append, width_singleton] at inside
      by_cases lower : i < width earlier
      · obtain ⟨k, c, at_k, least, below⟩ := ih lower
        obtain ⟨bound, -⟩ := List.getElem?_eq_some_iff.mp at_k
        refine ⟨k, c, ?_, ?_⟩
        · exact (List.getElem?_append_left bound).trans at_k
        · rw [List.take_append_of_le_length bound.le]
          exact ⟨least, below⟩
      · refine ⟨earlier.length, b, by simp, ?_⟩
        rw [List.take_left]
        exact ⟨by omega, inside⟩

/-- A slot with a name is the first of a binding that has it. -/
theorem exists_of_nameIn? {name : String}
    (named : Frame.nameIn? (.ofSlots (table bindings)) i = some name) :
    ∃ k b, bindings[k]? = some b ∧ i = width (bindings.take k) ∧ b.name = some name := by
  have inside : i < width bindings := by
    have isSome : (Frame.nameIn? (.ofSlots (table bindings)) i).isSome := by simp [named]
    simpa using Frame.lt_size_of_nameIn? (LocalTable.matched_ofSlots _) isSome
  obtain ⟨k, b, at_k, least, below⟩ := exists_owns inside
  have name_eq : (if i = width (bindings.take k) then b.name else none) = some name := by
    simpa [LocalTable.nameIn?_ofSlots, getElem?_table at_k least below] using named
  split at name_eq <;> rename_i first
  · exact ⟨k, b, at_k, first, name_eq⟩
  · contradiction

end

end Binding

namespace Environment

/-- Where the scopes around the innermost one end. -/
def starts : List (List Binding) → List Nat
  | [] => []
  | scope :: rest => Binding.width (scope :: rest).reverse.flatten :: starts rest

/-- The frame has the slots of the open bindings, and its scopes begin where those around
them end. -/
structure IsHeldBy (e : Environment) (f : Frame) : Prop where
  locals_eq : f.locals = .ofSlots (Binding.table e.bindings)
  scopes_eq : f.scopes = starts e.outer

section

variable {e : Environment} {f : Frame}

theorem length_starts (scopes : List (List Binding)) : (starts scopes).length = scopes.length := by
  induction scopes with
  | nil => rfl
  | cons scope rest ih => simp [starts, ih]

theorem IsHeldBy.localCount_eq (held : e.IsHeldBy f) : f.localCount = Binding.width e.bindings := by
  simp [Frame.localCount, held.locals_eq]

theorem IsHeldBy.add (held : e.IsHeldBy f) (few : f.localCount ≤ 65535) (name : Option String)
    (ty : JType) : (e.step (.add name ty)).IsHeldBy (FrameStep.apply (.addLocal name ty) f) := by
  have applied : FrameStep.apply (.addLocal name ty) f =
      if Frame.IsStorable ty then f.added name ty else f := by
    change FrameOp.leaves (Frame.addLocal name ty) f = _
    unfold FrameOp.leaves Frame.addLocal Frame.IsStorable
    simp only [Frame.localCount] at few
    by_cases unfit : ty = .void ∨ ty = .null
    · simp [unfit, not_lt.mpr few]
    · simp [unfit, not_lt.mpr few, Frame.added, Frame.writeSlots]
  rw [applied, step]
  split_ifs with storable
  · refine ⟨?_, held.scopes_eq⟩
    have bindings_eq : bindings { e with current := e.current ++ [⟨name, ty, storable⟩] } =
        e.bindings ++ [⟨name, ty, storable⟩] := by
      simp [bindings]
    have added_eq : Binding.table [⟨name, ty, storable⟩] = variableSlots name ty := by
      simp [Binding.table]
    rw [bindings_eq, Binding.table_append, added_eq]
    have appended := written_append (Binding.table e.bindings) name storable.value
    rw [← LocalTable.size_ofSlots, ← held.locals_eq] at appended
    exact appended
  · exact held

theorem IsHeldBy.openScope (held : e.IsHeldBy f) :
    (e.step .openScope).IsHeldBy (FrameStep.apply .beginScope f) := by
  have bindings_eq : (e.step .openScope).bindings = e.bindings := by
    simp [step, bindings]
  have flatten_eq : (e.current :: e.outer).reverse.flatten = e.bindings := by
    simp [bindings]
  refine ⟨bindings_eq ▸ held.locals_eq, ?_⟩
  change f.locals.size :: f.scopes = starts (e.current :: e.outer)
  rw [starts, flatten_eq, ← held.localCount_eq, held.scopes_eq, Frame.localCount]

theorem IsHeldBy.closeScope (held : e.IsHeldBy f) :
    (e.step .closeScope).IsHeldBy (FrameStep.apply .endScope f) := by
  change (e.step .closeScope).IsHeldBy (FrameOp.leaves Frame.endScope f)
  unfold FrameOp.leaves Frame.endScope
  obtain ⟨current, outer⟩ := e
  cases outer with
  | nil =>
      have none_open : f.scopes = [] := held.scopes_eq
      simpa [none_open, step] using held
  | cons scope rest =>
      have scopes_eq : f.scopes = Binding.width (scope :: rest).reverse.flatten :: starts rest :=
        held.scopes_eq
      have locals_eq : f.locals =
          .ofSlots (Binding.table (scope :: rest).reverse.flatten ++ Binding.table current) := by
        rw [held.locals_eq, ← Binding.table_append]
        rfl
      -- The table is cut behind the slots of the bindings outside of the innermost scope.
      simp only [scopes_eq]
      refine ⟨?_, rfl⟩
      have bindings_eq : bindings ⟨scope, rest⟩ = (scope :: rest).reverse.flatten := by
        simp [bindings]
      change f.locals.take _ = .ofSlots (Binding.table (bindings ⟨scope, rest⟩))
      rw [bindings_eq, locals_eq, LocalTable.take_ofSlots, ← Binding.length_table, List.take_left]

theorem IsHeldBy.step (held : e.IsHeldBy f) (few : f.localCount ≤ 65535) (step : LexicalStep) :
    (e.step step).IsHeldBy (step.frameStep.apply f) := by
  cases step with
  | add name ty => exact held.add few name ty
  | openScope => exact held.openScope
  | closeScope => exact held.closeScope

/-- A name stands for the first slot of the latest binding that has it. -/
theorem IsHeldBy.resolveIndex_of_latest (held : e.IsHeldBy f) {name : String} {k : Nat}
    {b : Binding} (at_k : e.bindings[k]? = some b) (named : b.name = some name)
    (latest : ∀ c ∈ e.bindings.drop (k + 1), c.name ≠ some name) :
    Frame.resolveIndex name f =
      .ok (Binding.width (e.bindings.take k)).toUInt16 f := by
  have positive : 0 < b.type.width := by
    rcases JType.width_of_value b.storable.value with width | width <;> omega
  refine Frame.resolveIndex_eq_ok.mpr ⟨rfl, _, Frame.indexIn?_eq_some_iff.mpr ⟨?_, ?_⟩, rfl⟩
  · have first := Binding.getElem?_table at_k le_rfl (by omega)
    simp [held.locals_eq, LocalTable.nameIn?_ofSlots, first, named]
  · intro j above isName
    rw [held.locals_eq] at isName
    obtain ⟨m, c, at_m, rfl, namedToo⟩ := Binding.exists_of_nameIn? isName
    have behind : k < m := by
      by_contra before
      exact absurd (Binding.width_take_mono (not_lt.mp before)) (not_le.mpr above)
    refine latest c (List.mem_of_getElem? (i := m - (k + 1)) ?_) namedToo
    rw [List.getElem?_drop, Nat.add_sub_cancel' behind, at_m]

theorem IsHeldBy.resolveIndex_of_unbound (held : e.IsHeldBy f) {name : String}
    (unbound : ∀ b ∈ e.bindings, b.name ≠ some name) :
    Frame.resolveIndex name f = .error (.unresolvedLocal name) f := by
  cases found : Frame.indexIn? f.locals name with
  | none => simp [Frame.resolveIndex, found]
  | some i =>
      have isName := (Frame.indexIn?_eq_some_iff.mp found).1
      rw [held.locals_eq] at isName
      obtain ⟨k, b, at_k, -, named⟩ := Binding.exists_of_nameIn? isName
      exact absurd named (unbound b (List.mem_of_getElem? at_k))

theorem IsHeldBy.localType_of_owns (held : e.IsHeldBy f) {k : Nat} {b : Binding} {slot : Slot}
    (at_k : e.bindings[k]? = some b) (owns : Binding.Owns e.bindings k slot.toNat) :
    Frame.localType slot f = .ok b.type f := by
  obtain ⟨c, at_k', least, below⟩ := owns
  obtain rfl : c = b := Option.some.inj (at_k'.symm.trans at_k)
  have type_eq : f.slotType? slot.toNat = some c.type := by
    simp [Frame.slotType?, held.locals_eq, LocalTable.typeIn?_ofSlots,
      Binding.getElem?_table at_k least below]
  exact Frame.localType_eq_ok.mpr ⟨type_eq, rfl⟩

end

end Environment

/-! ## Runs -/

namespace Frame

/-- As long as the table is small, the greatest number of slots is brought up to date by
every operation. -/
theorem Change.maxLocals_eq {f g : Frame} {step : FrameStep} (change : Change f step g)
    (few : g.localCount ≤ 65535) (count_le : f.localCount ≤ f.maxLocals) :
    g.maxLocals = max g.localCount f.maxLocals := by
  have written {index : Nat} {ty : JType} (few : max f.localCount (index + ty.width) ≤ 65535) :
      max f.maxLocals ((index + ty.width) % 65536) =
        max (max f.localCount (index + ty.width)) f.maxLocals := by
    rw [Nat.mod_eq_of_lt (by omega)]
    omega
  cases change with
  | @add _ name ty =>
      have count_eq := max_eq_right (Nat.le_add_right f.localCount ty.width)
      rw [localCount_added, ← count_eq] at few ⊢
      exact written few
  | write =>
      rw [localCount_writeSlots] at few ⊢
      exact written few
  | writeNamed =>
      rw [localCount_writeSlots] at few ⊢
      exact written few
  | closeScope scopes_eq =>
      refine (max_eq_right (le_trans ?_ count_le)).symm
      simp [localCount]
  | _ => exact (max_eq_right count_le).symm

/-- The frame after declarations and scopes. -/
def afterLexical (steps : List LexicalStep) : Frame :=
  run {} (steps.map LexicalStep.frameStep)

theorem afterLexical_concat (steps : List LexicalStep) (step : LexicalStep) :
    afterLexical (steps ++ [step]) = step.frameStep.apply (afterLexical steps) := by
  rw [afterLexical, List.map_append]
  exact run_concat {} _ _

end Frame

namespace Environment

/-- The table never has more than 65535 slots. -/
def FewSlots (steps : List LexicalStep) : Prop :=
  ∀ before, before <+: steps → (Frame.afterLexical before).localCount ≤ 65535

section

variable {steps : List LexicalStep}

theorem FewSlots.of_concat {step : LexicalStep} (few : FewSlots (steps ++ [step])) :
    FewSlots steps :=
  fun before isPrefix => few before (isPrefix.trans (List.prefix_append steps [step]))

theorem isHeldBy_run (few : FewSlots steps) :
    (run {} steps).IsHeldBy (Frame.afterLexical steps) := by
  induction steps using List.reverseRecOn with
  | nil => exact ⟨rfl, rfl⟩
  | append_singleton steps step ih =>
      rw [run_concat, Frame.afterLexical_concat]
      exact (ih few.of_concat).step (few.of_concat steps List.prefix_rfl) step

/-- The widths of the open bindings that a run comes by. -/
def widths (steps : List LexicalStep) : Set Nat :=
  valuesAlong (fun before => Binding.width (run {} before).bindings) steps

theorem isGreatest_maxLocals (few : FewSlots steps) :
    IsGreatest (widths steps) (Frame.afterLexical steps).maxLocals := by
  induction steps using List.reverseRecOn with
  | nil => exact isGreatest_valuesAlong_nil _
  | append_singleton steps step ih =>
      have greatest := ih few.of_concat
      have count_le : (Frame.afterLexical steps).localCount ≤
          (Frame.afterLexical steps).maxLocals := by
        rw [(isHeldBy_run few.of_concat).localCount_eq]
        exact greatest.2 ⟨steps, List.prefix_rfl, rfl⟩
      have updated := (Frame.Change.of_step step.frameStep).maxLocals_eq
        (Frame.afterLexical_concat steps step ▸ few _ List.prefix_rfl) count_le
      rw [← Frame.afterLexical_concat, (isHeldBy_run few).localCount_eq] at updated
      rw [updated]
      exact isGreatest_valuesAlong_concat step greatest

end

/-- After any declarations and scopes, failing ones included, that never need more than
65535 slots: as many scopes are open as in the environment; every slot of the table
belongs to exactly one open binding, those of a binding begin behind all earlier ones and
have its type; a name stands for the first slot of the latest open binding that has it, and
for nothing if there is none; and the greatest number of slots is the greatest width that
the open bindings had. -/
theorem run_isHeld (steps : List LexicalStep) (few : FewSlots steps) :
    let e := run {} steps
    let f := Frame.afterLexical steps
    f.scopes.length = e.outer.length ∧
    f.localCount = Binding.width e.bindings ∧
    (∀ i < f.localCount, ∃! k, Binding.Owns e.bindings k i) ∧
    (∀ k b slot, e.bindings[k]? = some b → Binding.Owns e.bindings k slot.toNat →
      Frame.localType slot f = .ok b.type f) ∧
    (∀ name k b, e.bindings[k]? = some b → b.name = some name →
      (∀ later ∈ e.bindings.drop (k + 1), later.name ≠ some name) →
      ∃ slot, Frame.resolveIndex name f = .ok slot f ∧
        slot.toNat = Binding.width (e.bindings.take k)) ∧
    (∀ name, (∀ b ∈ e.bindings, b.name ≠ some name) →
      Frame.resolveIndex name f = .error (.unresolvedLocal name) f) ∧
    IsGreatest (widths steps) f.maxLocals := by
  intro e f
  have held : e.IsHeldBy f := isHeldBy_run few
  refine ⟨by rw [held.scopes_eq, length_starts], held.localCount_eq, ?_,
    fun k b slot => held.localType_of_owns, ?_, fun name => held.resolveIndex_of_unbound,
    isGreatest_maxLocals few⟩
  · intro i inside
    obtain ⟨k, owns⟩ := Binding.exists_owns (held.localCount_eq ▸ inside)
    exact ⟨k, owns, fun m ownsToo => ownsToo.unique owns⟩
  · intro name k b at_k named latest
    refine ⟨_, held.resolveIndex_of_latest at_k named latest, toNat_toUInt16 ?_⟩
    calc Binding.width (e.bindings.take k) ≤ Binding.width e.bindings :=
          Binding.width_take_le e.bindings k
      _ = f.localCount := held.localCount_eq.symm
      _ ≤ 65535 := few steps List.prefix_rfl

end Environment

namespace Sample

/-- `x` is a `long`, and a `double` within a scope that follows one with an unnamed `int`.
A `void` variable and the end of a scope that is not open are refused. -/
def shadowedName : List LexicalStep :=
  [.closeScope, .add (some "x") .long, .openScope, .add none .int, .closeScope, .openScope,
    .add (some "y") .void, .add (some "x") .double]

/-- The inner `x` has the slot of the unnamed variable and the one behind it. -/
theorem shadowedName_isHeld :
    Environment.FewSlots shadowedName ∧
    (∃! k, Binding.Owns (Environment.run {} shadowedName).bindings k 3) ∧
    Frame.localType 3 (Frame.afterLexical shadowedName) =
      .ok .double (Frame.afterLexical shadowedName) ∧
    (∃ slot, Frame.resolveIndex "x" (Frame.afterLexical shadowedName) =
      .ok slot (Frame.afterLexical shadowedName) ∧ slot.toNat = 2) ∧
    Frame.resolveIndex "y" (Frame.afterLexical shadowedName) =
      .error (.unresolvedLocal "y") (Frame.afterLexical shadowedName) ∧
    IsGreatest (Environment.widths shadowedName) 4 := by
  have few : Environment.FewSlots shadowedName := by
    intro before isPrefix
    have bounded : ∀ b ∈ shadowedName.inits, (Frame.afterLexical b).localCount ≤ 65535 := by
      decide
    exact bounded before ((List.mem_inits before _).mpr isPrefix)
  obtain ⟨-, -, owned, typed, bound, unbound, greatest⟩ := Environment.run_isHeld shadowedName few
  refine ⟨few, owned 3 (by decide), ?_, ?_, ?_, greatest⟩
  · exact typed 1 ⟨some "x", .double, by decide⟩ 3 rfl ⟨_, rfl, by decide, by decide⟩
  · exact bound "x" 1 ⟨some "x", .double, by decide⟩ rfl rfl (by decide)
  · exact unbound "y" (by decide)

end Sample

end JvmAssembler
