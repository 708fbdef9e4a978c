import Mathlib
import JvmAssembler.Proofs.Run
import JvmAssembler.Method

/-!
# Labels, recorded shapes and probe memory

What every successful run of the generator keeps.  Written instructions stay.
The labels placed by a run are its own and are placed once.  Shapes that were
recorded stay, and new ones are recorded only for labels of the run's own or for
its explicit targets.  Types are remembered only for positions below that of the
fragment being generated.
-/

namespace JvmAssembler

/-- The label an instruction places. -/
def Instr.placed? : Instr → Option Label
  | .label position => some position
  | _ => none

/-- The labels placed by instructions, in order. -/
def placed (code : List Instr) : List Label :=
  code.filterMap Instr.placed?

@[simp]
theorem placed_nil : placed [] = [] :=
  rfl

@[simp]
theorem placed_append (first second : List Instr) :
    placed (first ++ second) = placed first ++ placed second := by
  simp [placed]

@[simp]
theorem placed_label (label : Label) : placed [.label label] = [label] :=
  rfl

theorem placed_singleton_of_ne {instr : Instr} (noLabel : ∀ label, instr ≠ .label label) :
    placed [instr] = [] := by
  cases instr <;> simp_all [placed, Instr.placed?]

namespace State

/-- The instructions written so far. -/
def code (s : State) : List Instr :=
  s.output.instrs.toList

/-- Shape recorded for a label. -/
def shape? (s : State) (label : Label) : Option (List JType) :=
  s.frame.shapes.lookup label

/-- No shape is recorded for a label that was not handed out yet. -/
def ShapesBelow (s : State) : Prop :=
  ∀ label, (s.shape? label).isSome → label.id < s.output.nextLabel

end State

/-- The instructions written between two states. -/
def written (s t : State) : List Instr :=
  t.code.drop s.code.length

theorem written_eq {s t : State} {code : List Instr} (grown : t.code = s.code ++ code) :
    written s t = code := by
  simp [written, grown]

theorem written_trans {s t u : State} (first : t.code = s.code ++ written s t)
    (second : u.code = t.code ++ written t u) :
    written s u = written s t ++ written t u := by
  apply written_eq
  rw [second, ← List.append_assoc, ← first]

/-- What a part of a run that may record shapes for the given labels, and for
labels handed out during the part, does to recorded shapes. -/
structure Later (targets : List Label) (s t : State) : Prop where
  nextLabel_le : s.output.nextLabel ≤ t.output.nextLabel
  shape_eq : ∀ label, label.id < s.output.nextLabel → label ∉ targets →
    t.shape? label = s.shape? label
  shape_kept : ∀ label shape, s.shape? label = some shape → t.shape? label = some shape
  shapesBelow : s.ShapesBelow → (∀ target ∈ targets, target.id < s.output.nextLabel) →
    t.ShapesBelow

namespace Later

variable {targets targets' : List Label} {s t u : State}

theorem of_shapes (nextLabel : t.output.nextLabel = s.output.nextLabel)
    (shapes : t.frame.shapes = s.frame.shapes) : Later targets s t where
  nextLabel_le := nextLabel.ge
  shape_eq := by simp [State.shape?, shapes]
  shape_kept := by simp [State.shape?, shapes]
  shapesBelow := by
    intro below _ label recorded
    rw [nextLabel]
    exact below label (by simpa [State.shape?, shapes] using recorded)

theorem refl (targets : List Label) (s : State) : Later targets s s :=
  of_shapes rfl rfl

theorem trans (first : Later targets s t) (second : Later targets' t u)
    (known : ∀ label ∈ targets',
      label ∈ targets ∨ (s.output.nextLabel ≤ label.id ∧ label.id < t.output.nextLabel)) :
    Later targets s u where
  nextLabel_le := first.nextLabel_le.trans second.nextLabel_le
  shape_eq := by
    intro label old noTarget
    have grown := first.nextLabel_le
    rw [second.shape_eq label (by omega), first.shape_eq label old noTarget]
    intro target
    rcases known label target with isTarget | range
    · exact noTarget isTarget
    · omega
  shape_kept := fun label shape recorded =>
    second.shape_kept label shape (first.shape_kept label shape recorded)
  shapesBelow := by
    intro below targetsBelow
    have grown := first.nextLabel_le
    refine second.shapesBelow (first.shapesBelow below targetsBelow) fun label target => ?_
    rcases known label target with isTarget | range
    · have := targetsBelow label isTarget
      omega
    · exact range.2

theorem mono (later : Later targets s t) (known : targets ⊆ targets') : Later targets' s t :=
  (refl targets' s).trans later fun _ mem => .inl (known mem)

theorem trans_subset (first : Later targets s t) (second : Later targets' t u)
    (known : targets' ⊆ targets) : Later targets s u :=
  first.trans second fun _ mem => .inl (known mem)

end Later

/-- How a run at a position, which may jump to the given labels, leaves a
state. -/
structure Advance (pos : Position) (targets : List Label) (s t : State) : Prop
    extends Later targets s t where
  code_eq : t.code = s.code ++ written s t
  placed_nodup : (placed (written s t)).Nodup
  placed_range : ∀ label ∈ placed (written s t),
    s.output.nextLabel ≤ label.id ∧ label.id < t.output.nextLabel
  probed_below : ∀ p ty, t.probed[p]? = some ty → s.probed[p]? = some ty ∨ pos <:+ p

namespace Advance

variable {pos : Position} {targets : List Label} {s t u : State}

/-- A step that writes nothing but instructions without labels and records no
shapes. -/
theorem of_code (code : List Instr) (nextLabel : t.output.nextLabel = s.output.nextLabel)
    (grown : t.code = s.code ++ code) (noLabels : placed code = [])
    (shapes : t.frame.shapes = s.frame.shapes) (probed : t.probed = s.probed) :
    Advance pos targets s t where
  toLater := Later.of_shapes nextLabel shapes
  code_eq := by rw [written_eq grown, grown]
  placed_nodup := by simp [written_eq grown, noLabels]
  placed_range := by simp [written_eq grown, noLabels]
  probed_below := fun p ty found => .inl (probed ▸ found)

theorem of_frame (output : t.output = s.output) (shapes : t.frame.shapes = s.frame.shapes)
    (probed : t.probed = s.probed) : Advance pos targets s t :=
  of_code [] (by rw [output]) (by simp [State.code, output]) rfl shapes probed

theorem refl (pos : Position) (targets : List Label) (s : State) : Advance pos targets s s :=
  of_frame rfl rfl rfl

theorem of_emits {code : List Instr} {stack : List JType} (emits : Gen.Emits s t code stack)
    (noLabels : placed code = []) : Advance pos targets s t :=
  of_code code emits.nextLabel_eq emits.instrs_eq noLabels emits.shapes_eq emits.probed_eq

/-- Runs follow one another; the second may also jump to labels that the first
handed out. -/
theorem trans {pos' : Position} {targets' : List Label} (first : Advance pos targets s t)
    (second : Advance pos' targets' t u) (inside : pos <:+ pos')
    (known : ∀ label ∈ targets',
      label ∈ targets ∨ (s.output.nextLabel ≤ label.id ∧ label.id < t.output.nextLabel)) :
    Advance pos targets s u where
  toLater := first.toLater.trans second.toLater known
  code_eq := by
    rw [written_trans first.code_eq second.code_eq, ← List.append_assoc, ← first.code_eq,
      ← second.code_eq]
  placed_nodup := by
    rw [written_trans first.code_eq second.code_eq, placed_append]
    refine first.placed_nodup.append second.placed_nodup ?_
    intro label left right
    have := (first.placed_range label left).2
    have := (second.placed_range label right).1
    omega
  placed_range := by
    rw [written_trans first.code_eq second.code_eq, placed_append]
    intro label mem
    have grown := first.nextLabel_le
    have grown' := second.nextLabel_le
    rcases List.mem_append.mp mem with left | right
    · have range := first.placed_range label left
      omega
    · have range := second.placed_range label right
      omega
  probed_below := by
    intro p ty found
    rcases second.probed_below p ty found with kept | deep
    · exact first.probed_below p ty kept
    · exact .inr (inside.trans deep)

end Advance

namespace Frame.Records

variable {s t : State} {label other : Label} {shape known : List JType}

theorem shape_kept (records : s.frame.Records t.frame label shape)
    (recorded : s.shape? other = some known) : t.shape? other = some known := by
  unfold State.shape? at recorded ⊢
  rw [records.lookup_eq]
  split
  · rename_i isLabel
    rw [records.agrees known (isLabel ▸ recorded)]
  · exact recorded

theorem shape_eq_of_ne (records : s.frame.Records t.frame label shape) (differs : other ≠ label) :
    t.shape? other = s.shape? other := by
  simp [State.shape?, records.lookup_eq, differs]

theorem shape_self (records : s.frame.Records t.frame label shape) :
    t.shape? label = some shape := by
  simp [State.shape?, records.lookup_eq]

end Frame.Records

namespace Gen

variable {s t : State} {ctx : Context} {label : Label}

theorem Marks.written_eq {instr : Instr} (marks : Marks s t instr) : written s t = [instr] :=
  JvmAssembler.written_eq marks.instrs_eq

theorem Marks.code_eq {instr : Instr} (marks : Marks s t instr) :
    t.code = s.code ++ written s t := by
  rw [marks.written_eq]
  exact marks.instrs_eq

/-- Recording a shape for a label concerns no other label. -/
theorem Marks.later {instr : Instr} {shape : List JType} (marks : Marks s t instr)
    (records : s.frame.Records t.frame label shape) : Later [label] s t where
  nextLabel_le := marks.nextLabel_eq.ge
  shape_eq := fun other _ noTarget => records.shape_eq_of_ne (by simpa using noTarget)
  shape_kept := fun _ _ => records.shape_kept
  shapesBelow := by
    intro below targetBelow other recorded
    rw [marks.nextLabel_eq]
    by_cases isLabel : other = label
    · exact targetBelow other (by simp [isLabel])
    · rw [records.shape_eq_of_ne isLabel] at recorded
      exact below other recorded

/-- Placing a label writes it and records a shape for no other label. -/
theorem place_later (run : place ctx label s = .ok () t) :
    Marks s t (.label label) ∧ Later [label] s t := by
  cases alive : s.frame.alive with
  | true =>
      obtain ⟨marks, -, -, records⟩ := place_marks_of_alive alive run
      exact ⟨marks, marks.later records⟩
  | false =>
      obtain ⟨marks, shapes, -⟩ := place_marks_of_dead alive run
      exact ⟨marks, Later.of_shapes marks.nextLabel_eq shapes⟩

theorem newLabel_later {targets : List Label} (run : newLabel s = .ok label t) :
    Later targets s t := by
  obtain ⟨rfl, rfl⟩ := newLabel_eq_ok.mp run
  refine ⟨Nat.le_succ _, fun _ _ _ => rfl, fun _ _ recorded => recorded, ?_⟩
  intro below _ other recorded
  exact Nat.lt_succ_of_lt (below other recorded)

end Gen

/-- A run since `s` that handed out the labels `mine`, of which it has still to
place those of `pending`. -/
structure Building (pos : Position) (targets mine pending : List Label) (s t : State) : Prop
    extends Advance pos targets s t where
  mine_range : ∀ label ∈ mine,
    s.output.nextLabel ≤ label.id ∧ label.id < t.output.nextLabel
  pending_subset : pending ⊆ mine
  pending_nodup : pending.Nodup
  pending_unplaced : ∀ label ∈ pending, label ∉ placed (written s t)

namespace Building

variable {pos : Position} {targets mine pending : List Label} {s t u : State} {ctx : Context}

theorem start (pos : Position) (targets : List Label) (s : State) :
    Building pos targets [] [] s s where
  toAdvance := Advance.refl pos targets s
  mine_range := by simp
  pending_subset := by simp
  pending_nodup := by simp
  pending_unplaced := by simp

theorem perm {pending' : List Label} (building : Building pos targets mine pending s t)
    (same : pending.Perm pending') : Building pos targets mine pending' s t where
  toAdvance := building.toAdvance
  mine_range := building.mine_range
  pending_subset := fun _ mem => building.pending_subset (same.mem_iff.mpr mem)
  pending_nodup := same.nodup building.pending_nodup
  pending_unplaced := fun label mem => building.pending_unplaced label (same.mem_iff.mpr mem)

/-- Handing out a label. -/
theorem allocate (building : Building pos targets mine pending s t) {label : Label}
    (run : Gen.newLabel t = .ok label u) :
    Building pos targets (label :: mine) (label :: pending) s u := by
  have later : Later targets t u := Gen.newLabel_later run
  obtain ⟨rfl, rfl⟩ := Gen.newLabel_eq_ok.mp run
  have range := building.mine_range
  have placedRange := building.placed_range
  have grown := building.nextLabel_le
  refine
    { toLater := building.toLater.trans_subset later (List.Subset.refl targets)
      code_eq := building.code_eq
      placed_nodup := building.placed_nodup
      placed_range := ?_
      probed_below := building.probed_below
      mine_range := ?_
      pending_subset := List.cons_subset_cons _ building.pending_subset
      pending_nodup := ?_
      pending_unplaced := ?_ }
  · intro label mem
    have := placedRange label mem
    simp only
    omega
  · intro label mem
    rcases List.mem_cons.mp mem with rfl | old
    · simp only
      omega
    · have := range label old
      simp only
      omega
  · refine List.nodup_cons.mpr ⟨fun mem => ?_, building.pending_nodup⟩
    have := (range _ (building.pending_subset mem)).2
    simp only at this
    omega
  · intro label mem found
    rcases List.mem_cons.mp mem with rfl | old
    · have := (placedRange _ found).2
      simp only at this
      omega
    · exact building.pending_unplaced label old found

/-- A part of the run, which may jump to labels handed out before. -/
theorem step (building : Building pos targets mine pending s t) {pos' : Position}
    {targets' : List Label} (advance : Advance pos' targets' t u) (inside : pos <:+ pos')
    (known : targets' ⊆ targets ++ mine) : Building pos targets mine pending s u := by
  have grown := advance.nextLabel_le
  refine
    { toAdvance := building.toAdvance.trans advance inside ?_
      mine_range := ?_
      pending_subset := building.pending_subset
      pending_nodup := building.pending_nodup
      pending_unplaced := ?_ }
  · intro label mem
    rcases List.mem_append.mp (known mem) with isTarget | isMine
    · exact .inl isTarget
    · exact .inr (building.mine_range label isMine)
  · intro label mem
    have := building.mine_range label mem
    omega
  · intro label mem found
    rw [written_trans building.code_eq advance.code_eq, placed_append] at found
    rcases List.mem_append.mp found with before | after
    · exact building.pending_unplaced label mem before
    · have := building.mine_range label (building.pending_subset mem)
      have := advance.placed_range label after
      omega

/-- Placing a pending label. -/
theorem place (building : Building pos targets mine pending s t) {label : Label}
    (isPending : label ∈ pending) (run : Gen.place ctx label t = .ok () u) :
    Building pos targets mine (pending.erase label) s u := by
  obtain ⟨marks, later⟩ := Gen.place_later run
  have writes : written s u = written s t ++ [.label label] := by
    rw [written_trans building.code_eq marks.code_eq, marks.written_eq]
  have range := building.mine_range label (building.pending_subset isPending)
  refine
    { toLater := building.toLater.trans later ?_
      code_eq := by
        rw [writes, ← List.append_assoc, ← building.code_eq, marks.code_eq, marks.written_eq]
      placed_nodup := ?_
      placed_range := ?_
      probed_below := marks.probed_eq ▸ building.probed_below
      mine_range := marks.nextLabel_eq ▸ building.mine_range
      pending_subset := fun _ mem => building.pending_subset (List.mem_of_mem_erase mem)
      pending_nodup := building.pending_nodup.erase label
      pending_unplaced := ?_ }
  · intro other isLabel
    obtain rfl : other = label := by simpa using isLabel
    exact .inr range
  · rw [writes, placed_append]
    refine building.placed_nodup.append (by simp) ?_
    intro other before isLabel
    obtain rfl : other = label := by simpa using isLabel
    exact building.pending_unplaced other isPending before
  · rw [writes, placed_append, marks.nextLabel_eq]
    intro other mem
    rcases List.mem_append.mp mem with before | isLabel
    · exact building.placed_range other before
    · obtain rfl : other = label := by simpa using isLabel
      exact range
  · intro other mem found
    rw [writes, placed_append] at found
    have isOther := building.pending_nodup.mem_erase_iff.mp mem
    rcases List.mem_append.mp found with before | isLabel
    · exact building.pending_unplaced other isOther.2 before
    · exact isOther.1 (by simpa using isLabel)

end Building

namespace Gen

/-- Every successful run of the action is an advance. -/
def Advances {α : Type} (pos : Position) (targets : List Label) (action : Gen α) : Prop :=
  ∀ ⦃s a t⦄, action s = .ok a t → Advance pos targets s t

end Gen

end JvmAssembler
