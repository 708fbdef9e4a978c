import Mathlib
import JvmAssembler.Proofs.MatchedTables
import JvmAssembler.Proofs.Simulation
import JvmAssembler.Sample

/-!
# Probing

A probe finds the type of a fragment in a dry run.  The dry run numbers labels
from elsewhere, knows no recorded shapes, and does not forget remembered types
between operations as a run at the outermost level does.  Main statement:
between outermost operations a probe nevertheless answers what generating the
fragment there would answer, and it changes nothing.
-/

namespace JvmAssembler

open Gen

/-! ## What any run keeps -/

/-- What a run that succeeds or fails keeps. -/
structure Kept (s t : State) : Prop where
  depth_eq : t.depth = s.depth
  nextLabel_le : s.output.nextLabel ≤ t.output.nextLabel
  shapesBelow : s.ShapesBelow → t.ShapesBelow
  forgotten : s.depth = 0 → s.probed = ∅ → t.probed = ∅

namespace Kept

variable {s t u : State}

theorem of_shapes (depth : t.depth = s.depth) (nextLabel : t.output.nextLabel = s.output.nextLabel)
    (shapes : t.frame.shapes = s.frame.shapes) (probed : t.probed = s.probed) : Kept s t where
  depth_eq := depth
  nextLabel_le := nextLabel.ge
  shapesBelow below := (Later.of_shapes nextLabel shapes : Later [] s t).shapesBelow below (by simp)
  forgotten _ empty := by rw [probed, empty]

theorem refl (s : State) : Kept s s :=
  of_shapes rfl rfl rfl rfl

theorem trans (first : Kept s t) (second : Kept t u) : Kept s u where
  depth_eq := second.depth_eq.trans first.depth_eq
  nextLabel_le := first.nextLabel_le.trans second.nextLabel_le
  shapesBelow below := second.shapesBelow (first.shapesBelow below)
  forgotten outermost empty :=
    second.forgotten (first.depth_eq.trans outermost) (first.forgotten outermost empty)

/-- Recording a shape for a label that was handed out. -/
theorem of_marks {instr : Instr} {label : Label} (marks : Marks s t instr) (later : Later [label] s t)
    (allocated : label.id < s.output.nextLabel) : Kept s t where
  depth_eq := marks.depth_eq
  nextLabel_le := later.nextLabel_le
  shapesBelow below := later.shapesBelow below (by simpa using allocated)
  forgotten _ empty := by rw [marks.probed_eq, empty]

/-- An operation restores the depth and forgets types at the outermost level. -/
theorem of_leave (kept : Kept { s with depth := s.depth + 1 } t) : Kept s (t.leave s.depth) where
  depth_eq := rfl
  nextLabel_le := kept.nextLabel_le
  shapesBelow := kept.shapesBelow
  forgotten outermost _ := by simp [State.leave, outermost]

theorem of_frameOp {α : Type} {op : FrameOp α} (quiet : Frame.Quiet op) (s : State) :
    Kept s (stateAfter (onFrame op) s) := by
  cases ran : op s.frame with
  | ok a frame =>
      have after : stateAfter (onFrame op) s = { s with frame } := by simp [stateAfter, onFrame, ran]
      rw [after]
      exact of_shapes rfl rfl (quiet.shapes_eq ran) rfl
  | error e frame =>
      have after : stateAfter (onFrame op) s = { s with frame } := by simp [stateAfter, onFrame, ran]
      rw [after]
      exact of_shapes rfl rfl (quiet.error_shapes_eq ran) rfl

theorem of_emit (ctx : Context) (instr : Instr) (s : State) :
    Kept s (stateAfter (emit ctx instr) s) := by
  cases instr with
  | op code =>
      have ends : stateAfter (emit ctx (.op code)) s =
          stateAfter (if code.isTerminal then onFrame Frame.markDead else pure ())
            (stateAfter (write ctx (.op code)) s) := rfl
      rw [ends]
      split <;> exact of_shapes rfl rfl rfl rfl
  | _ => exact of_shapes rfl rfl rfl rfl

theorem of_probe (ctx : Context) (operand : Operand) (s : State) :
    Kept s (stateAfter (probe ctx operand) s) := by
  have after (memory : ProbeMemory) (log : Array LogLine) : Kept s (s.afterProbe memory log) :=
    { depth_eq := rfl
      nextLabel_le := le_refl _
      shapesBelow := id
      forgotten := fun outermost _ => by simp [State.afterProbe, outermost] }
  unfold stateAfter probe
  cases ctx.probing with
  | remembered =>
      dsimp only [probeRemembered]
      cases s.probed[operand.position]? with
      | some ty => exact refl s
      | none => cases value operand.code s.dryRun <;> exact after _ _
  | fresh =>
      dsimp only [probeFresh]
      cases value operand.code s.dryRun <;> exact of_shapes rfl rfl rfl rfl

end Kept

namespace Gen

variable {α β : Type} {ctx : Context} {pairing : Pairing} {s : State}

/-- Whether a run fails. -/
def fails (x : Gen α) (s : State) : Bool :=
  match x s with
  | .ok _ _ => false
  | .error _ _ => true

theorem exists_error_of_fails {x : Gen α} (fails : x.fails s = true) : ∃ e t, x s = .error e t := by
  unfold Gen.fails at fails
  split at fails
  · contradiction
  · exact ⟨_, _, by assumption⟩

theorem exists_ok_of_not_fails {x : Gen α} (succeeds : x.fails s = false) :
    ∃ a t, x s = .ok a t := by
  unfold Gen.fails at succeeds
  split at succeeds
  · exact ⟨_, _, by assumption⟩
  · contradiction

theorem onFrame_error {op : FrameOp α} {e : Error} {t : State}
    (untouched : ∀ {f g}, op f = .error e g → g = f) (run : onFrame op s = .error e t) : t = s := by
  cases ran : op s.frame with
  | ok a frame => simp [onFrame, ran] at run
  | error e' frame =>
      simp only [onFrame, ran, EStateM.Result.error.injEq] at run
      rcases run with ⟨rfl, rfl⟩
      rw [untouched ran]

/-- A sequence whose rest cannot fail fails at its start. -/
theorem bind_error {x : Gen α} {f : α → Gen β} {e : Error} {t : State}
    (safe : ∀ a u, ∃ b v, f a u = .ok b v) (run : (x >>= f) s = .error e t) :
    x s = .error e t := by
  rcases bind_eq_error run with failed | ⟨a, u, -, failed⟩
  · exact failed
  · obtain ⟨b, v, succeeds⟩ := safe a u
    simp [succeeds] at failed

end Gen

theorem Frame.merge_error {label : Label} {shape : List JType} {f g : Frame} {e : Error}
    (run : merge label shape f = .error e g) : g = f := by
  unfold merge at run
  split at run
  · split at run
    · contradiction
    · cases run
      rfl
  · contradiction

theorem Frame.place_error {label : Label} {f g : Frame} {e : Error}
    (run : place label f = .error e g) : g = f := by
  unfold place at run
  split at run
  · exact merge_error run
  · split at run <;> contradiction

namespace Kept

variable {ctx : Context} {label : Label} {s : State}

theorem of_jump (code : Opcode) (allocated : label.id < s.output.nextLabel) :
    Kept s (stateAfter (jump ctx code label) s) := by
  cases run : jump ctx code label s with
  | ok a t =>
      obtain ⟨marks, -, -, records⟩ := jump_marks run
      rw [stateAfter_of_ok run]
      exact of_marks marks (marks.later records) allocated
  | error e t =>
      have fails : onFrame (Frame.jumpTo label) s = .error e t := by
        have ends (u : State) : ∃ b v,
            (if code = .goto then onFrame Frame.markDead else pure () : Gen Unit) u = .ok b v := by
          split <;> exact ⟨_, _, rfl⟩
        exact bind_error (fun _ u => ends _) run
      rw [stateAfter_of_error run, onFrame_error Frame.merge_error fails]
      exact refl s

theorem of_place (ctx : Context) (allocated : label.id < s.output.nextLabel) :
    Kept s (stateAfter (place ctx label) s) := by
  cases run : place ctx label s with
  | ok a t =>
      obtain ⟨marks, later⟩ := place_later run
      rw [stateAfter_of_ok run]
      exact of_marks marks later allocated
  | error e t =>
      have fails : onFrame (Frame.place label) s = .error e t :=
        bind_error (fun _ u => ⟨_, _, rfl⟩) run
      rw [stateAfter_of_error run, onFrame_error Frame.place_error fails]
      exact refl s

theorem of_bind {α β : Type} {x : Gen α} {f : α → Gen β} (first : Kept s (stateAfter x s))
    (rest : ∀ a t, x s = .ok a t → Kept t (stateAfter (f a) t)) :
    Kept s (stateAfter (x >>= f) s) := by
  rw [stateAfter_bind]
  cases run : x s with
  | ok a t =>
      rw [stateAfter_of_ok run] at first
      exact first.trans (rest a t run)
  | error e t =>
      rwa [stateAfter_of_error run] at first

theorem of_value {x : Gen Unit} (kept : Kept s (stateAfter x s)) :
    Kept s (stateAfter (value x) s) := by
  refine of_bind (refl s : Kept s (stateAfter get s)) fun before t read => ?_
  obtain ⟨rfl, rfl⟩ := get_eq_ok.mp read
  refine of_bind kept fun _ u _ => ?_
  refine of_bind (refl u : Kept u (stateAfter get u)) fun after t read => ?_
  obtain ⟨rfl, rfl⟩ := get_eq_ok.mp read
  dsimp only
  split
  · exact refl u
  · exact of_frameOp .peek u

theorem of_operation {name : String} {x : Gen Unit}
    (kept : Kept { s with depth := s.depth + 1 } (stateAfter x { s with depth := s.depth + 1 })) :
    Kept s (stateAfter (operation name x) s) := by
  have applied := operation_apply name x s
  cases alive : s.frame.alive with
  | false =>
      rw [stateAfter, applied, alive]
      exact (refl { s with depth := s.depth + 1 }).of_leave
  | true =>
      cases run : x { s with depth := s.depth + 1 } with
      | ok a t =>
          rw [stateAfter_of_ok run] at kept
          rw [stateAfter, applied, alive, run]
          exact kept.of_leave
      | error e t =>
          rw [stateAfter_of_error run] at kept
          rw [stateAfter, applied, alive, run]
          exact kept.of_leave

/-- Labels stay handed out. -/
theorem pending {α : Type} {x : Gen α} {labels : List (Label × Label)}
    (kept : Kept s (stateAfter x s)) (allocated : ∀ pair ∈ labels, pair.1.id < s.output.nextLabel) :
    Kept s (stateAfter x s) ∧
      ∀ a t, x s = .ok a t → ∀ pair ∈ labels, pair.1.id < t.output.nextLabel := by
  refine ⟨kept, fun a t run pair mem => ?_⟩
  rw [stateAfter_of_ok run] at kept
  exact (allocated pair mem).trans_le kept.nextLabel_le

end Kept

/-- Every run that jumps only to labels that were handed out keeps what `Kept`
says.  If it succeeds, the labels left pending were handed out. -/
theorem Gen.Parallel.kept {α : Type} {ctx : Context} {pairing : Pairing} {live : Bool}
    {heads pending after : List (Label × Label)} {x x' : Gen α}
    (parallel : Parallel ctx pairing live heads pending x x' after) {s : State}
    (headsBelow : ∀ pair ∈ heads, pair.1.id < s.output.nextLabel)
    (below : ∀ pair ∈ pending, pair.1.id < s.output.nextLabel) :
    Kept s (stateAfter x s) ∧
      ∀ a t, x s = .ok a t → ∀ pair ∈ after, pair.1.id < t.output.nextLabel := by
  induction parallel generalizing s with
  | pure a => exact (Kept.refl s).pending below
  | throw _ => exact (Kept.refl s).pending below
  | bind _ _ ihFirst ihRest =>
      obtain ⟨first, left⟩ := ihFirst headsBelow below
      constructor
      · apply first.of_bind
        intro a t run
        exact (ihRest a ((first.pending headsBelow).2 a t run) (left a t run)).1
      · intro b u run
        obtain ⟨a, t, ran, rest⟩ := bind_eq_ok.mp run
        exact (ihRest a ((first.pending headsBelow).2 a t ran) (left a t ran)).2 b u rest
  | onFrame quiet => exact (Kept.of_frameOp quiet s).pending below
  | emit _ => exact (Kept.of_emit _ _ s).pending below
  | @newLabel live heads pending after α f f' _ ih =>
      have numbered : Kept s (stateAfter Gen.newLabel s) :=
        { depth_eq := rfl
          nextLabel_le := Nat.le_succ _
          shapesBelow := fun below label recorded => Nat.lt_succ_of_lt (below label recorded)
          forgotten := fun _ empty => empty }
      have inner {label : Label} {t : State} (run : Gen.newLabel s = .ok label t) :
          Kept t (stateAfter (f label) t) ∧
            ∀ a u, f label t = .ok a u → ∀ pair ∈ after, pair.1.id < u.output.nextLabel := by
        have isNew : label.id < t.output.nextLabel := by
          obtain ⟨rfl, rfl⟩ := newLabel_eq_ok.mp run
          exact Nat.lt_succ_self _
        exact ih label label ((numbered.pending headsBelow).2 label t run)
          (List.forall_mem_cons.mpr ⟨isNew, (numbered.pending below).2 label t run⟩)
      constructor
      · exact numbered.of_bind fun label t run => (inner run).1
      · intro b u run
        obtain ⟨label, t, ran, rest⟩ := bind_eq_ok.mp run
        exact (inner ran).2 b u rest
  | jump code known =>
      have handedOut := List.forall_mem_append.mpr ⟨headsBelow, below⟩ _ known
      exact (Kept.of_jump code handedOut).pending below
  | place isPending =>
      have split := List.forall_mem_cons.mp fun pair mem => below pair (isPending.mem_iff.mpr mem)
      exact (Kept.of_place ctx split.1).pending split.2
  | head isPending _ ih =>
      have split := List.forall_mem_cons.mp fun pair mem => below pair (isPending.mem_iff.mpr mem)
      have placed := Kept.of_place ctx split.1
      have inner := (placed.pending (List.forall_mem_cons.mpr ⟨split.1, headsBelow⟩)).2
      constructor
      · apply placed.of_bind
        intro _ t run
        exact (ih (inner _ t run) ((placed.pending split.2).2 _ t run)).1
      · intro b u run
        obtain ⟨_, t, ran, rest⟩ := bind_eq_ok.mp run
        exact (ih (inner _ t ran) ((placed.pending split.2).2 _ t ran)).2 b u rest
  | value _ ih =>
      obtain ⟨kept, left⟩ := ih headsBelow below
      exact ⟨kept.of_value, fun ty t run => left () t (value_eq_ok.mp run).1⟩
  | @operation live heads pending x x' name _ ih =>
      have kept := (ih (s := { s with depth := s.depth + 1 }) headsBelow below).1
      exact kept.of_operation.pending below
  | probe _ _ _ => exact (Kept.of_probe _ _ s).pending below

/-! ## States between outermost operations -/

/-- States reached by generating fragments one after the other, whether that
succeeds or fails, from a frame with as many names as types of local variables
and without recorded shapes. -/
inductive Reached (ctx : Context) : State → Prop where
  | start {s : State} : s.frame.locals.Matched → s.frame.shapes = [] → s.probed = ∅ →
      s.depth = 0 → Reached ctx s
  | generate {s : State} (pos : Position) (fragment : Fragment) :
      Reached ctx s → Reached ctx (stateAfter (fragment.code ctx pos) s)

namespace Reached

variable {ctx : Context} {s : State}

theorem invariant (reached : Reached ctx s) :
    s.depth = 0 ∧ s.probed = ∅ ∧ s.ShapesBelow ∧ s.frame.locals.Matched := by
  induction reached with
  | start matched shapes empty outermost =>
      exact ⟨outermost, empty, by simp [State.ShapesBelow, State.shape?, shapes], matched⟩
  | @generate s pos fragment _ ih =>
      obtain ⟨outermost, empty, below, matched⟩ := ih
      have alike := codeFrom_alike ctx (.below pos) pos pos 0 fragment
        (Pairing.below_covers List.suffix_rfl _)
      have kept := ((alike false [] []).kept (s := s) (by simp) (by simp)).1
      exact ⟨kept.depth_eq.trans outermost, kept.forgotten outermost empty, kept.shapesBelow below,
        (alike false [] []).keepsMatched matched⟩

end Reached

/-! ## The dry run and the run itself -/

/-- The error with a fixed label in place of the one that it names. -/
def Error.maskLabel : Error → Error
  | .internal (.stackMismatch _ expected found) => .internal (.stackMismatch ⟨0⟩ expected found)
  | e => e

/-- Positions of a kind; errors count as the same if they differ in a label
only. -/
def Pairing.upToLabel (inside : Position → Prop) : Pairing where
  positions p p' := p = p' ∧ inside p
  positions_inj := by
    rintro p _ q _ ⟨rfl, _⟩ ⟨rfl, _⟩
    rfl
  errors e e' := e.maskLabel = e'.maskLabel
  errors_refl _ := rfl

/-- No shape is recorded for a label that comes after a state. -/
theorem State.ShapesBelow.shapes_eq_nil {s : State} (below : s.ShapesBelow) {base' : Nat}
    {start start' : List Instr} :
    Renumbering.shapes ⟨s.output.nextLabel, base', start, start'⟩ s.frame.shapes = [] := by
  apply Renumbering.shapes_eq_nil
  rintro ⟨label, shape⟩ mem
  apply below
  rw [State.shape?, Option.isSome_iff_ne_none, Ne, List.lookup_eq_none_iff]
  intro absent
  simpa using absent (label, shape) mem

/-- The dry run `d` of a fragment at a position and the run `s` of the fragment
itself, before the operation with this index. -/
structure Shadows (pos : Position) (renumbering : Renumbering) (index : Nat) (s d : State) : Prop
    extends Twin (.upToLabel fun _ => False) renumbering s d where
  outermost : s.depth = 0
  empty : s.probed = ∅
  nested : d.depth ≠ 0
  unprobed : ∀ p step, index ≤ step → step :: pos <:+ p → d.probed[p]? = none

namespace Shadows

variable {ctx : Context} {pos : Position} {renumbering : Renumbering} {index : Nat} {s d : State}

theorem tolerates (inside : Position → Prop) :
    Twin.Tolerates (.upToLabel inside) renumbering :=
  fun _ _ _ _ => rfl

/-- Inside one operation both runs remember the same. -/
theorem operation (shadows : Shadows pos renumbering index s d) (op : Op) :
    Agrees (fun e e' => e.maskLabel = e'.maskLabel)
      (Twin (.upToLabel fun _ => False) renumbering)
      (Gen.operation op.name (op.body ctx (index :: pos)) s)
      (Gen.operation op.name (op.body ctx (index :: pos)) d) := by
  have entered : Twin (.upToLabel (index :: pos <:+ ·)) renumbering
      { s with depth := s.depth + 1 } { d with depth := d.depth + 1 } :=
    { frame_eq := shadows.frame_eq
      base_le := shadows.base_le
      nextLabel_eq := shadows.nextLabel_eq
      code_eq := shadows.code_eq
      memory_eq := by
        rintro p _ ⟨rfl, inside⟩
        simp [shadows.empty, shadows.unprobed p index (le_refl _) inside]
      depth_iff := by simp }
  have parallel := op.body_parallel ctx (.upToLabel (index :: pos <:+ ·)) (index :: pos)
    (index :: pos) (fun path _ _ => ⟨rfl, List.suffix_append path.reverse _⟩) [] []
  have agrees := (parallel.agrees (tolerates _) (by simp) entered).1
  apply shadows.toTwin.operation
  apply agrees.mono
  intro t t' twin
  exact ⟨twin.frame_eq, twin.base_le, twin.nextLabel_eq, twin.code_eq, by rintro _ _ ⟨_, ⟨⟩⟩,
    by rintro _ _ ⟨_, ⟨⟩⟩⟩

theorem after_operation (shadows : Shadows pos renumbering index s d) {op : Op} {t t' : State}
    (run : Gen.operation op.name (op.body ctx (index :: pos)) s = .ok () t)
    (run' : Gen.operation op.name (op.body ctx (index :: pos)) d = .ok () t')
    (twin : Twin (.upToLabel fun _ => False) renumbering t t') :
    Shadows pos renumbering (index + 1) t t' := by
  have advance : Advance (index :: pos) [] d t' :=
    (op.body_advances ctx (index :: pos) []).operation op.name run'
  obtain ⟨-, u, -, rfl⟩ := operation_eq_ok.mp run
  obtain ⟨-, u', -, rfl⟩ := operation_eq_ok.mp run'
  refine
    { twin with
      outermost := shadows.outermost
      empty := ?_
      nested := shadows.nested
      unprobed := ?_ }
  · simp [State.leave, shadows.outermost]
  · intro p step later inside
    cases found : (u'.leave d.depth).probed[p]? with
    | none => rfl
    | some ty =>
        rcases advance.probed_below p ty found with old | here
        · rw [shadows.unprobed p step (by omega) inside] at old
          contradiction
        · have same : index :: pos = step :: pos :=
            (List.suffix_of_suffix_length_le here inside (by simp)).eq_of_length (by simp)
          have := (List.cons.inj same).1
          omega

/-- The rest of a fragment agrees in the dry run and the run itself. -/
theorem codeFrom (ctx : Context) (shadows : Shadows pos renumbering index s d) (ops : List Op) :
    Agrees (fun e e' => e.maskLabel = e'.maskLabel)
      (Twin (.upToLabel fun _ => False) renumbering)
      (codeFrom ctx pos index ops s) (codeFrom ctx pos index ops d) := by
  induction ops generalizing index s d with
  | nil => exact .ok shadows.toTwin
  | cons op rest ih =>
      apply (shadows.operation op).bind
      intro _ t t' run run' twin
      exact ih (shadows.after_operation run run' twin)

/-- A dry run starts as the shadow of a run at the outermost level. -/
theorem start {ctx : Context} (pos : Position) (reached : Reached ctx s) :
    Shadows pos ⟨s.output.nextLabel, 2147483648, s.code, []⟩ 0 s s.dryRun := by
  obtain ⟨outermost, empty, below, -⟩ := reached.invariant
  exact
    { frame_eq := by rw [Renumbering.frame, below.shapes_eq_nil]; rfl
      base_le := le_refl _
      nextLabel_eq := by simp [State.dryRun, Output.discarded, Nat.add_comm]
      code_eq := ⟨[], by simp, rfl⟩
      memory_eq := by rintro _ _ ⟨_, ⟨⟩⟩
      depth_iff := by rintro _ _ ⟨_, ⟨⟩⟩
      outermost
      empty
      nested := Nat.succ_ne_zero _
      unprobed := fun p _ _ _ => by simp [State.dryRun, empty] }

end Shadows

/-- Between outermost operations, probing a fragment agrees with generating it as
a value: both give the same type, or both fail with errors that differ at most in
a label.  Probing leaves all but the log as it was. -/
theorem Fragment.probe_agrees_value {ctx : Context} {s : State} (reached : Reached ctx s)
    (pos : Position) (fragment : Fragment) :
    Agrees (fun e e' => e.maskLabel = e'.maskLabel) (fun _ t' => t' = { s with log := t'.log })
      (value (fragment.code ctx pos) s) (probe ctx (fragment.operand ctx pos) s) := by
  obtain ⟨outermost, empty, -⟩ := reached.invariant
  have shadows := Shadows.start pos reached
  have agrees := shadows.toTwin.value (shadows.codeFrom ctx fragment)
  have unprobed : s.probed[pos]? = none := by simp [empty]
  have restored (memory : ProbeMemory) (log : Array LogLine) :
      s.afterProbe memory log = { s with log } := by
    simp [State.afterProbe, outermost, empty]
  change Agrees _ _ (value (codeFrom ctx pos 0 fragment) s)
    (probe ctx ⟨pos, codeFrom ctx pos 0 fragment⟩ s)
  unfold probe
  cases ctx.probing with
  | remembered =>
      simp only [probeRemembered, unprobed, restored]
      generalize value (codeFrom ctx pos 0 fragment) s = result at agrees ⊢
      generalize value (codeFrom ctx pos 0 fragment) s.dryRun = result' at agrees ⊢
      cases agrees with
      | ok _ => exact .ok rfl
      | error same _ => exact .error same rfl
  | fresh =>
      simp only [probeFresh]
      generalize value (codeFrom ctx pos 0 fragment) s = result at agrees ⊢
      generalize value (codeFrom ctx pos 0 fragment) s.dryRun = result' at agrees ⊢
      cases agrees with
      | ok _ => exact .ok rfl
      | error same _ => exact .error same rfl

namespace Sample

open Fragment

def minimumContext : Context :=
  { classContext "Demo" {} with isStatic := true, result := .int }

/-- The state after `if (a < 0) return 0;`, which has handed out a label and
recorded a shape for it. -/
def minimumState : State :=
  stateAfter
    (Fragment.code minimumContext [0]
      [.ifThen (.relation .lt (loadNamed "a") (int 0)) (int 0 ++ [.returnValue])])
    { frame := { locals := ⟨#[some .int, some .int], #[some "a", some "b"]⟩ } }

theorem minimum_probe_agrees_value :
    Reached minimumContext minimumState ∧ minimumState.frame.shapes ≠ [] ∧
      Agrees (fun e e' => e.maskLabel = e'.maskLabel)
        (fun _ t' => t' = { minimumState with log := t'.log })
        (value (Fragment.code minimumContext [1] (minimum.body.take 1)) minimumState)
        (probe minimumContext (Fragment.operand minimumContext [1] (minimum.body.take 1))
          minimumState) := by
  have reached : Reached minimumContext minimumState := .generate _ _ (.start rfl rfl rfl rfl)
  exact ⟨reached, by decide +kernel, Fragment.probe_agrees_value reached [1] (minimum.body.take 1)⟩

end Sample

end JvmAssembler
