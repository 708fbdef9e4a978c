import Mathlib
import JvmAssembler.Proofs.LexicalScopes

/-!
# Runs of frame operations

A frame is driven by its operations, one after the other.  An operation that
fails leaves the frame as far as it got, and the run goes on from there.

What an operation may do to a frame is said once, by `Frame.Change`.  Main
statement: along every run the depth is that of the operands, the greatest depth
is the greatest that occurred, the open scopes are nested within the table of
slots, and recorded shapes stay what they are.
-/

namespace JvmAssembler

/-- What a measure of a run comes by, from the start to the end of the run. -/
def valuesAlong {α : Type} (measure : List α → Nat) (steps : List α) : Set Nat :=
  {value | ∃ before, before <+: steps ∧ measure before = value}

section

variable {α : Type} {measure : List α → Nat}

theorem isGreatest_valuesAlong_nil (measure : List α → Nat) :
    IsGreatest (valuesAlong measure []) (measure []) := by
  refine ⟨⟨[], List.prefix_rfl, rfl⟩, ?_⟩
  rintro _ ⟨before, isPrefix, rfl⟩
  rw [List.prefix_nil.mp isPrefix]

/-- The greatest value so far is brought up to date by the last one. -/
theorem isGreatest_valuesAlong_concat {steps : List α} {greatest : Nat} (step : α)
    (isGreatest : IsGreatest (valuesAlong measure steps) greatest) :
    IsGreatest (valuesAlong measure (steps ++ [step]))
      (max (measure (steps ++ [step])) greatest) := by
  have values : valuesAlong measure (steps ++ [step]) =
      insert (measure (steps ++ [step])) (valuesAlong measure steps) := by
    ext value
    constructor
    · rintro ⟨before, isPrefix, rfl⟩
      rcases List.prefix_concat_iff.mp isPrefix with rfl | isPrefix
      · exact .inl rfl
      · exact .inr ⟨before, isPrefix, rfl⟩
    · rintro (rfl | ⟨before, isPrefix, rfl⟩)
      · exact ⟨_, List.prefix_rfl, rfl⟩
      · exact ⟨before, isPrefix.trans (List.prefix_append _ _), rfl⟩
  rw [values]
  exact isGreatest.insert _

end

/-- An operation on a frame with its arguments. -/
inductive FrameStep where
  | push (ty : JType)
  | pop
  | popN (count : Nat)
  | peek
  | replaceTop (ty : JType)
  | addLocal (name : Option String) (ty : JType)
  | setLocal (index : Slot) (ty : JType)
  | setNamedLocal (name : String) (ty : JType)
  | localType (index : Slot)
  | resolveIndex (name : String)
  | beginScope
  | endScope
  | markDead
  | jumpTo (label : Label)
  | place (label : Label)
  /-- Go on with the frame of a dry run. -/
  | fork
  deriving DecidableEq

/-- The frame after an operation. -/
def FrameStep.apply : FrameStep → Frame → Frame
  | .push ty => FrameOp.leaves (Frame.push ty)
  | .pop => FrameOp.leaves Frame.pop
  | .popN count => FrameOp.leaves (Frame.popN count)
  | .peek => FrameOp.leaves Frame.peek
  | .replaceTop ty => FrameOp.leaves (Frame.replaceTop ty)
  | .addLocal name ty => FrameOp.leaves (Frame.addLocal name ty)
  | .setLocal index ty => FrameOp.leaves (Frame.setLocal index ty)
  | .setNamedLocal name ty => FrameOp.leaves (Frame.setNamedLocal name ty)
  | .localType index => FrameOp.leaves (Frame.localType index)
  | .resolveIndex name => FrameOp.leaves (Frame.resolveIndex name)
  | .beginScope => FrameOp.leaves Frame.beginScope
  | .endScope => FrameOp.leaves Frame.endScope
  | .markDead => FrameOp.leaves Frame.markDead
  | .jumpTo label => FrameOp.leaves (Frame.jumpTo label)
  | .place label => FrameOp.leaves (Frame.place label)
  | .fork => Frame.fork

namespace Frame

/-- The frame after operations, performed one after the other. -/
def run (f : Frame) : List FrameStep → Frame
  | [] => f
  | step :: rest => (step.apply f).run rest

theorem run_append (f : Frame) (steps more : List FrameStep) :
    f.run (steps ++ more) = (f.run steps).run more := by
  induction steps generalizing f with
  | nil => rfl
  | cons step steps ih => exact ih (step.apply f)

theorem run_concat (f : Frame) (steps : List FrameStep) (step : FrameStep) :
    f.run (steps ++ [step]) = step.apply (f.run steps) :=
  run_append f steps [step]

/-! ## What an operation may do -/

/-- How the operations change a frame. -/
inductive Change (f : Frame) : FrameStep → Frame → Prop where
  | none {step : FrameStep} : Change f step f
  | push {ty : JType} (value : ty.isVoid = false) : Change f (.push ty) (f.pushed ty)
  | drop {step : FrameStep} {count : Nat} (enough : count ≤ f.stack.length) :
      Change f step (f.dropped count)
  | retype {ty : JType} (enough : 1 ≤ f.stack.length) (value : ty.isVoid = false) :
      Change f (.replaceTop ty) ((f.dropped 1).pushed ty)
  | add {step : FrameStep} {name : Option String} {ty : JType} (few : f.localCount ≤ 65535)
      (storable : IsStorable ty) : Change f step (f.added name ty)
  | write {index : Slot} {ty : JType} (storable : IsStorable ty) :
      Change f (.setLocal index ty) (f.writeSlots index.toNat ty)
  | writeNamed {name : String} {index : Nat} {ty : JType}
      (bound : indexIn? f.locals name = some index) (storable : IsStorable ty) :
      Change f (.setNamedLocal name ty) (f.writeSlots index.toUInt16.toNat ty)
  | openScope : Change f .beginScope { f with scopes := f.locals.size :: f.scopes }
  | closeScope {start : Nat} {rest : List Nat} (scopes_eq : f.scopes = start :: rest) :
      Change f .endScope { f with scopes := rest, locals := f.locals.take start }
  | die : Change f .markDead { f with alive := false }
  | record {step : FrameStep} {label : Label} (unknown : f.shapes.lookup label = .none) :
      Change f step { f with shapes := (label, f.stack) :: f.shapes }
  | revive {label : Label} {shape : List JType} (known : f.shapes.lookup label = some shape) :
      Change f (.place label)
        { f with stack := shape, depth := JType.slotCount shape, alive := true }
  | fork : Change f .fork f.fork

section Changes

variable {f g : Frame}

theorem leaves_setLocal {index : Slot} {ty : JType} :
    FrameOp.leaves (setLocal index ty) f = f ∨
      IsStorable ty ∧ FrameOp.leaves (setLocal index ty) f = f.writeSlots index.toNat ty := by
  unfold FrameOp.leaves setLocal
  split_ifs with unfit
  · exact .inl rfl
  · exact .inr ⟨unfit, rfl⟩

/-- A name that is bound is written through its slot. -/
theorem setNamedLocal_of_bound {name : String} {index : Nat} (ty : JType)
    (bound : indexIn? f.locals name = some index) :
    setNamedLocal name ty f =
      (do setLocal index.toUInt16 ty; return index.toUInt16 : FrameOp Slot) f := by
  have resolved : resolveIndex name f = .ok index.toUInt16 f :=
    resolveIndex_eq_ok.mpr ⟨rfl, index, bound, rfl⟩
  simp [setNamedLocal, resolved]

theorem setNamedLocal_of_unbound {name : String} (ty : JType)
    (unbound : indexIn? f.locals name = none) :
    setNamedLocal name ty f = addLocal (some name) ty f := by
  have unresolved : resolveIndex name f = .error (.unresolvedLocal name) f := by
    simp [resolveIndex, unbound]
  simp [setNamedLocal, unresolved]

theorem leaves_setNamedLocal_of_bound {name : String} {index : Nat} (ty : JType)
    (bound : indexIn? f.locals name = some index) :
    FrameOp.leaves (setNamedLocal name ty) f = FrameOp.leaves (setLocal index.toUInt16 ty) f := by
  have same := setNamedLocal_of_bound ty bound
  cases wrote : setLocal index.toUInt16 ty f with
  | ok _ g =>
      rw [FrameOp.leaves_of_ok wrote, FrameOp.leaves, same]
      exact FrameOp.leaves_bind_of_ok wrote
  | error e g =>
      rw [FrameOp.leaves_of_error wrote, FrameOp.leaves, same]
      exact FrameOp.leaves_bind_of_error wrote

theorem leaves_addLocal {name : Option String} {ty : JType} :
    FrameOp.leaves (addLocal name ty) f = f ∨
      f.localCount ≤ 65535 ∧ IsStorable ty ∧
        FrameOp.leaves (addLocal name ty) f = f.added name ty := by
  unfold FrameOp.leaves addLocal
  dsimp only
  split_ifs with many unfit
  · exact .inl rfl
  · exact .inl rfl
  · exact .inr ⟨by simpa [localCount] using many, unfit, rfl⟩

theorem Change.addLocal {step : FrameStep} (name : Option String) (ty : JType) :
    Change f step (FrameOp.leaves (Frame.addLocal name ty) f) := by
  rcases leaves_addLocal with same | ⟨few, storable, same⟩
  · rw [same]
    exact .none
  · rw [same]
    exact .add few storable

theorem Change.setNamedLocal (name : String) (ty : JType) :
    Change f (.setNamedLocal name ty) (FrameOp.leaves (Frame.setNamedLocal name ty) f) := by
  cases named : indexIn? f.locals name with
  | some index =>
      rw [leaves_setNamedLocal_of_bound ty named]
      rcases leaves_setLocal with same | ⟨storable, same⟩
      · rw [same]
        exact .none
      · rw [same]
        exact .writeNamed named storable
  | none =>
      unfold FrameOp.leaves
      rw [setNamedLocal_of_unbound ty named]
      exact .addLocal (some name) ty

theorem Change.merge {step : FrameStep} (label : Label) :
    Change f step (FrameOp.leaves (Frame.merge label f.stack) f) := by
  unfold FrameOp.leaves Frame.merge
  cases known : f.shapes.lookup label with
  | none => exact .record known
  | some expected =>
      dsimp only
      split_ifs <;> exact .none

theorem pop_cases (f : Frame) :
    pop f = .error (.internal .popEmpty) f ∨
      1 ≤ f.stack.length ∧ ∃ top, pop f = .ok top (f.dropped 1) := by
  unfold pop dropped
  cases f.stack with
  | nil => exact .inl rfl
  | cons top rest => exact .inr ⟨by simp, top, by simp [JType.slotCount]⟩

theorem Change.replaceTop (ty : JType) :
    Change f (.replaceTop ty) (FrameOp.leaves (Frame.replaceTop ty) f) := by
  unfold Frame.replaceTop
  rcases pop_cases f with failed | ⟨enough, top, popped⟩
  · rw [FrameOp.leaves_bind_of_error failed]
    exact .none
  · rw [FrameOp.leaves_bind_of_ok popped]
    unfold FrameOp.leaves Frame.push
    split_ifs with void
    · exact .drop enough
    · exact .retype enough (by simpa using void)

/-- Every operation makes one of its changes. -/
theorem Change.of_step (step : FrameStep) : Change f step (step.apply f) := by
  cases step with
  | push ty =>
      change Change f _ (FrameOp.leaves (Frame.push ty) f)
      unfold FrameOp.leaves Frame.push
      split_ifs with void
      · exact .none
      · exact .push (by simpa using void)
  | pop =>
      change Change f _ (FrameOp.leaves Frame.pop f)
      rcases pop_cases f with failed | ⟨enough, top, popped⟩
      · rw [FrameOp.leaves_of_error failed]
        exact .none
      · rw [FrameOp.leaves_of_ok popped]
        exact .drop enough
  | popN count =>
      change Change f _ (FrameOp.leaves (Frame.popN count) f)
      unfold FrameOp.leaves Frame.popN
      dsimp only
      split_ifs with missing
      · exact .none
      · exact .drop (by simpa using missing)
  | peek =>
      change Change f _ (FrameOp.leaves Frame.peek f)
      unfold FrameOp.leaves Frame.peek
      cases f.stack <;> exact .none
  | replaceTop ty => exact .replaceTop ty
  | addLocal name ty => exact .addLocal name ty
  | setLocal index ty =>
      change Change f _ (FrameOp.leaves (Frame.setLocal index ty) f)
      rcases leaves_setLocal with same | ⟨storable, same⟩
      · rw [same]
        exact .none
      · rw [same]
        exact .write storable
  | setNamedLocal name ty => exact .setNamedLocal name ty
  | localType index =>
      change Change f _ (FrameOp.leaves (Frame.localType index) f)
      unfold FrameOp.leaves Frame.localType
      cases f.slotType? index.toNat <;> exact .none
  | resolveIndex name =>
      change Change f _ (FrameOp.leaves (Frame.resolveIndex name) f)
      unfold FrameOp.leaves Frame.resolveIndex
      cases indexIn? f.locals name <;> exact .none
  | beginScope => exact .openScope
  | endScope =>
      change Change f _ (FrameOp.leaves Frame.endScope f)
      unfold FrameOp.leaves Frame.endScope
      cases scopesEq : f.scopes with
      | nil => exact .none
      | cons start rest => exact .closeScope scopesEq
  | markDead => exact .die
  | jumpTo label => exact .merge label
  | place label =>
      change Change f _ (FrameOp.leaves (Frame.place label) f)
      unfold FrameOp.leaves Frame.place
      split_ifs
      · exact .merge label
      · cases known : f.shapes.lookup label with
        | none => exact .none
        | some shape => exact .revive known
  | fork => exact .fork

end Changes

/-! ## What changes keep -/

section

variable {f g : Frame}

theorem Grows.pushed {ty : JType} (value : ty.isVoid = false) : f.Grows (f.pushed ty) :=
  .of_push (push_eq_ok.mpr ⟨value, rfl⟩)

theorem Grows.dropped {count : Nat} (enough : count ≤ f.stack.length) :
    f.Grows (f.dropped count) :=
  .of_popN (popN_eq_ok.mpr ⟨enough, rfl, rfl⟩)

theorem Grows.fork (f : Frame) : f.Grows f.fork where
  maxStack_le := le_rfl
  sized sized := ⟨sized.depth_eq, sized.stack_fits, by simp [Frame.fork]⟩

theorem Change.grows {step : FrameStep} (change : Change f step g) : f.Grows g := by
  cases change with
  | none => exact .refl f
  | push value => exact .pushed value
  | drop enough => exact .dropped enough
  | retype enough value => exact (Grows.dropped enough).trans (.pushed value)
  | @record _ label unknown =>
      have ran : Frame.merge label f.stack f =
          .ok () { f with shapes := (label, f.stack) :: f.shapes } := by
        simp [Frame.merge, unknown]
      exact .of_records rfl rfl rfl (merge_eq_ok ran).1
  | revive known => exact .of_recorded known
  | fork => exact .fork f
  | _ => exact .of_same rfl rfl rfl rfl

theorem Change.maxStack_le {step : FrameStep} (change : Change f step g) :
    g.maxStack.toNat ≤ max f.maxStack.toNat g.depth.toNat := by
  cases change with
  | push => exact (maxStack_pushed f _).le
  | retype => exact (maxStack_pushed (f.dropped 1) _).le
  | _ => exact le_max_left _ _

/-- Every operation keeps as many names as types. -/
theorem Change.matched {step : FrameStep} (change : Change f step g) (matched : f.locals.Matched) :
    g.locals.Matched := by
  cases change with
  | add => exact (matched.written _ _).renamed _ _
  | write => exact matched.written _ _
  | writeNamed => exact matched.written _ _
  | closeScope => exact matched.take _
  | _ => exact matched

/-- The scopes, innermost first, begin one inside the other and within the table. -/
def Nested (f : Frame) : Prop :=
  (f.localCount :: f.scopes).Pairwise (· ≥ ·)

theorem Nested.grow (nested : f.Nested) (size_le : f.localCount ≤ g.localCount)
    (scopes_eq : g.scopes = f.scopes) : g.Nested := by
  obtain ⟨inside, sorted⟩ := List.pairwise_cons.mp nested
  rw [Nested, scopes_eq]
  exact List.pairwise_cons.mpr ⟨fun start mem => (inside start mem).trans size_le, sorted⟩

theorem localCount_writeSlots (f : Frame) (index : Nat) (ty : JType) :
    (f.writeSlots index ty).localCount = max f.localCount (index + ty.width) :=
  size_written f.locals index ty

theorem localCount_added (f : Frame) (name : Option String) (ty : JType) :
    (f.added name ty).localCount = f.localCount + ty.width := by
  simp [localCount, added, size_written]

theorem Change.nested {step : FrameStep} (change : Change f step g) (nested : f.Nested) :
    g.Nested := by
  cases change with
  | add => exact nested.grow (by simp [localCount_added]) rfl
  | write => exact nested.grow (by simp [localCount_writeSlots]) rfl
  | writeNamed => exact nested.grow (by simp [localCount_writeSlots]) rfl
  | openScope =>
      refine List.pairwise_cons.mpr ⟨fun start mem => ?_, nested⟩
      rcases List.mem_cons.mp mem with rfl | mem
      · exact le_rfl
      · exact List.rel_of_pairwise_cons nested mem
  | @closeScope start rest scopes_eq =>
      -- The table is cut where the innermost scope begins, which is inside all others.
      obtain ⟨inside, sorted⟩ := List.pairwise_cons.mp nested
      rw [scopes_eq] at sorted inside
      obtain ⟨startInside, sortedRest⟩ := List.pairwise_cons.mp sorted
      have size_eq : (f.locals.take start).size = start := by
        simpa [localCount] using inside start (List.mem_cons_self ..)
      refine List.pairwise_cons.mpr ⟨fun outer mem => ?_, sortedRest⟩
      rw [localCount, size_eq]
      exact startInside outer mem
  | _ => exact nested

theorem Change.lookup_eq {step : FrameStep} {label : Label} {shape : List JType}
    (change : Change f step g) (notFork : step ≠ .fork)
    (known : f.shapes.lookup label = some shape) : g.shapes.lookup label = some shape := by
  cases change with
  | @record _ other unknown =>
      have differs : (label == other) = false := by
        rw [beq_eq_false_iff_ne]
        rintro rfl
        simp [unknown] at known
      simpa [List.lookup_cons, differs] using known
  | fork => contradiction
  | _ => exact known

/-- Only the present operands are recorded. -/
theorem Change.lookup_cases {step : FrameStep} {label : Label} {shape : List JType}
    (change : Change f step g) (known : g.shapes.lookup label = some shape) :
    f.shapes.lookup label = some shape ∨ shape = f.stack := by
  cases change with
  | @record _ other unknown =>
      by_cases same : label = other
      · subst same
        exact .inr (by simpa using known.symm)
      · have differs : (label == other) = false := beq_eq_false_iff_ne.mpr same
        exact .inl (by simpa [List.lookup_cons, differs] using known)
  | fork => simp [Frame.fork] at known
  | _ => exact .inl known

/-- Entering a label goes on with the shape that it has from then on. -/
theorem place_enters {label : Label} (placed : place label f = .ok () g)
    (entered : f.alive = true ∨ (f.shapes.lookup label).isSome) :
    g.alive = true ∧ g.shapes.lookup label = some g.stack := by
  rcases place_eq_ok.mp placed with ⟨alive, merged⟩ | ⟨dead, unknown, -⟩ | ⟨-, shape, known, rfl⟩
  · obtain ⟨records, shapes, rfl⟩ := merge_eq_ok merged
    exact ⟨alive, by simpa using records.lookup_eq label⟩
  · simp [dead, unknown] at entered
  · exact ⟨rfl, known⟩

end

/-! ## Runs -/

section

variable {f : Frame}

/-- What holds at the start and is kept by every change holds after every run. -/
theorem invariant_run {inv : Frame → Prop} (initial : inv {})
    (kept : ∀ {f g : Frame} {step : FrameStep}, Change f step g → inv f → inv g)
    (steps : List FrameStep) : inv (run {} steps) := by
  induction steps using List.reverseRecOn with
  | nil => exact initial
  | append_singleton steps step ih =>
      rw [run_concat]
      exact kept (Change.of_step step) ih

/-- The greatest depth is brought up to date by every operation. -/
theorem maxStack_apply (step : FrameStep) (sized : f.Sized) :
    (step.apply f).maxStack.toNat = max f.maxStack.toNat (step.apply f).depth.toNat := by
  have change := Change.of_step (f := f) step
  exact le_antisymm change.maxStack_le
    (max_le change.grows.maxStack_le (change.grows.sized sized).depth_le)

theorem sized_run (steps : List FrameStep) : (run {} steps).Sized :=
  invariant_run .initial (fun change => change.grows.sized) steps

theorem matched_run (steps : List FrameStep) : (run {} steps).locals.Matched :=
  invariant_run (show LocalTable.Matched {} from rfl) Change.matched steps

theorem nested_run (steps : List FrameStep) : (run {} steps).Nested :=
  invariant_run (by simp [Nested]) Change.nested steps

/-- The depths that a run comes by. -/
def depths (steps : List FrameStep) : Set Nat :=
  valuesAlong (fun before => (run {} before).depth.toNat) steps

theorem isGreatest_maxStack (steps : List FrameStep) :
    IsGreatest (depths steps) (run {} steps).maxStack.toNat := by
  induction steps using List.reverseRecOn with
  | nil => exact isGreatest_valuesAlong_nil _
  | append_singleton steps step ih =>
      have updated := maxStack_apply step (sized_run steps)
      rw [← run_concat, max_comm] at updated
      rw [updated]
      exact isGreatest_valuesAlong_concat step ih

/-- The number of slots never overflows 16 bits along the run. -/
def NoOverflow (steps : List FrameStep) : Prop :=
  ∀ before, before <+: steps → JType.totalWidth (run {} before).stack ≤ 65535

theorem NoOverflow.shapes {steps : List FrameStep} (counted : NoOverflow steps) (label : Label)
    (shape : List JType) (known : (run {} steps).shapes.lookup label = some shape) :
    JType.totalWidth shape ≤ 65535 := by
  induction steps using List.reverseRecOn with
  | nil => simp [run] at known
  | append_singleton steps step ih =>
      rw [run_concat] at known
      have earlier : NoOverflow steps := fun before isPrefix =>
        counted before (isPrefix.trans (List.prefix_append _ _))
      rcases (Change.of_step step).lookup_cases known with known | rfl
      · exact ih earlier known
      · exact counted steps (List.prefix_append _ _)

theorem lookup_run {label : Label} {shape : List JType} {more : List FrameStep}
    (kept : .fork ∉ more) (known : f.shapes.lookup label = some shape) :
    (f.run more).shapes.lookup label = some shape := by
  induction more generalizing f with
  | nil => exact known
  | cons step more ih =>
      obtain ⟨notFork, keptRest⟩ := not_or.mp (mt List.mem_cons.mpr kept)
      exact ih keptRest ((Change.of_step step).lookup_eq (Ne.symm notFork) known)

end

/-- After any operations, failing ones included, along which the number of slots does
not overflow: the depth is the width of the operands, and the greatest depth is the
greatest that the run came by; there are as many names as types; the scopes are
nested and within the table; a recorded shape is no wider than the greatest depth and
stays until a fork drops all shapes; and entering a label, where control comes from
above or with a recorded shape, goes on with exactly the shape of the label. -/
theorem run_accounts (steps : List FrameStep) (counted : NoOverflow steps) :
    let f := run {} steps
    f.depth.toNat = JType.totalWidth f.stack ∧
    IsGreatest (depths steps) f.maxStack.toNat ∧
    f.locals.names.size = f.locals.types.size ∧
    f.scopes.Pairwise (· ≥ ·) ∧ (∀ start ∈ f.scopes, start ≤ f.localCount) ∧
    (∀ label shape, f.shapes.lookup label = some shape →
      JType.totalWidth shape ≤ f.maxStack.toNat ∧
      ∀ more, .fork ∉ more → (f.run more).shapes.lookup label = some shape) ∧
    f.fork.shapes = [] ∧
    ∀ label g, place label f = .ok () g → f.alive = true ∨ (f.shapes.lookup label).isSome →
      g.alive = true ∧ g.shapes.lookup label = some g.stack := by
  intro f
  have sized : f.Sized := sized_run steps
  obtain ⟨inside, sorted⟩ := List.pairwise_cons.mp (nested_run steps)
  have depth : f.depth.toNat = JType.totalWidth f.stack := by
    rw [sized.depth_eq, JType.toNat_slotCount (counted steps List.prefix_rfl)]
  refine ⟨depth, isGreatest_maxStack steps, matched_run steps, sorted, inside, ?_, rfl, ?_⟩
  · intro label shape known
    have fits := (sized.shapes_fit label shape known).count_le shape List.suffix_rfl
    rw [JType.toNat_slotCount (counted.shapes label shape known)] at fits
    exact ⟨fits, fun more kept => lookup_run kept known⟩
  · intro label g placed entered
    exact place_enters placed entered

end Frame

namespace Sample

/-- A `long` is recorded for a label and discarded; an `int` was on top of it, and
was lost in an operation that failed. -/
def deadAfterJump : List FrameStep :=
  [.push .long, .push .int, .replaceTop .void, .jumpTo ⟨0⟩, .pop, .beginScope,
    .addLocal (some "x") .long, .endScope, .endScope, .markDead]

/-- The label revives dead code with the `long`, also after further operations. -/
theorem deadAfterJump_accounts :
    Frame.NoOverflow deadAfterJump ∧ IsGreatest (Frame.depths deadAfterJump) 3 ∧
    (Frame.run {} deadAfterJump).depth = 0 ∧
    ((Frame.run {} deadAfterJump).run [.push .int, .place ⟨1⟩]).shapes.lookup ⟨0⟩ = some [.long] ∧
    ∃ g, Frame.place ⟨0⟩ (Frame.run {} deadAfterJump) = .ok () g ∧ g.alive = true ∧
      g.shapes.lookup ⟨0⟩ = some g.stack := by
  have counted : Frame.NoOverflow deadAfterJump := by
    intro before isPrefix
    have few : ∀ before ∈ deadAfterJump.inits,
        JType.totalWidth (Frame.run {} before).stack ≤ 65535 := by decide
    exact few before ((List.mem_inits _ _).mpr isPrefix)
  obtain ⟨-, greatest, -, -, -, recorded, -, entered⟩ :=
    Frame.run_accounts deadAfterJump counted
  exact ⟨counted, greatest, rfl, (recorded ⟨0⟩ [.long] rfl).2 _ (by decide), _, rfl,
    entered ⟨0⟩ _ rfl (.inr rfl)⟩

end Sample

end JvmAssembler
