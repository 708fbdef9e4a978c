import Mathlib
import JvmAssembler.Proofs.Labels
import JvmAssembler.Proofs.Parallel

/-!
# Parallel actions have the same outcome

Two actions that are made of the same steps are run from two states that differ
in the numbers of labels and in the positions under which types are remembered.
Either both succeed with the same result or both fail with corresponding errors,
and the states they leave differ in the same way as before.
-/

namespace JvmAssembler

/-! ## Renumbered labels -/

/-- Labels from `base` on are numbered from `base'` on instead.  The runs began
after the instructions `start` and `start'`. -/
structure Renumbering where
  base : Nat
  base' : Nat
  start : List Instr := []
  start' : List Instr := []

namespace Renumbering

/-- The new number of a label. -/
def label (renumbering : Renumbering) (old : Label) : Label :=
  ⟨old.id - renumbering.base + renumbering.base'⟩

def instr (renumbering : Renumbering) : Instr → Instr
  | .jump code target => .jump code (renumbering.label target)
  | .label position => .label (renumbering.label position)
  | other => other

/-- The shapes of renumbered labels; other labels are left out. -/
def shapes (renumbering : Renumbering) (old : List (Label × List JType)) :
    List (Label × List JType) :=
  (old.filter fun entry => renumbering.base ≤ entry.1.id).map fun entry =>
    (renumbering.label entry.1, entry.2)

def frame (renumbering : Renumbering) (old : Frame) : Frame :=
  { old with shapes := renumbering.shapes old.shapes }

/-- A label and its new number. -/
def Relates (renumbering : Renumbering) (old new : Label) : Prop :=
  renumbering.base ≤ old.id ∧ new = renumbering.label old

variable {renumbering : Renumbering}

theorem label_inj {first second : Label} (firstBound : renumbering.base ≤ first.id)
    (secondBound : renumbering.base ≤ second.id) :
    renumbering.label first = renumbering.label second ↔ first = second := by
  rcases first with ⟨first⟩
  rcases second with ⟨second⟩
  simp only [label, Label.mk.injEq]
  simp only at firstBound secondBound
  omega

theorem instr_of_not_isMark {old : Instr} (noMark : old.isMark = false) :
    renumbering.instr old = old := by
  cases old with
  | jump code target | label position => contradiction
  | _ => rfl

theorem lookup_shapes {old : Label} (bound : renumbering.base ≤ old.id)
    (known : List (Label × List JType)) :
    (renumbering.shapes known).lookup (renumbering.label old) = known.lookup old := by
  induction known with
  | nil => rfl
  | cons entry rest ih =>
      rcases entry with ⟨other, shape⟩
      by_cases otherBound : renumbering.base ≤ other.id
      · have same : (renumbering.label old == renumbering.label other) = (old == other) := by
          rw [Bool.eq_iff_iff, beq_iff_eq, beq_iff_eq]
          exact label_inj bound otherBound
        rw [shapes, List.filter_cons_of_pos (by simpa using otherBound), List.map_cons,
          List.lookup_cons, List.lookup_cons, same]
        cases old == other with
        | true => rfl
        | false => exact ih
      · have differs : (old == other) = false := by
          rw [beq_eq_false_iff_ne]
          rintro rfl
          exact otherBound bound
        rw [shapes, List.filter_cons_of_neg (by simpa using otherBound), List.lookup_cons, differs]
        exact ih

theorem shapes_cons {old : Label} (bound : renumbering.base ≤ old.id) (shape : List JType)
    (known : List (Label × List JType)) :
    renumbering.shapes ((old, shape) :: known) =
      (renumbering.label old, shape) :: renumbering.shapes known := by
  rw [shapes, List.filter_cons_of_pos (by simpa using bound)]
  rfl

/-- Labels before the first renumbered one have no new numbers. -/
theorem shapes_eq_nil {known : List (Label × List JType)}
    (before : ∀ entry ∈ known, entry.1.id < renumbering.base) : renumbering.shapes known = [] := by
  rw [shapes, List.map_eq_nil_iff, List.filter_eq_nil_iff]
  intro entry mem
  simpa using before entry mem

/-- Nothing changes if labels keep their numbers. -/
theorem shapes_self {base : Nat} {start start' : List Instr} {known : List (Label × List JType)}
    (bound : ∀ entry ∈ known, base ≤ entry.1.id) :
    (Renumbering.mk base base start start').shapes known = known := by
  rw [shapes, List.filter_eq_self.mpr (by simpa using bound)]
  conv_rhs => rw [← List.map_id known]
  apply List.map_congr_left
  rintro ⟨⟨id⟩, shape⟩ mem
  have := bound _ mem
  simp only [label, id_eq, Prod.mk.injEq, Label.mk.injEq, and_true] at *
  omega

end Renumbering

/-! ## Outcomes -/

/-- Runs that both succeed with the same result or both fail, and leave related
states. -/
inductive Agrees {σ α : Type} (errors : Error → Error → Prop) (related : σ → σ → Prop) :
    EStateM.Result Error σ α → EStateM.Result Error σ α → Prop where
  | ok {a : α} {t t' : σ} : related t t' → Agrees errors related (.ok a t) (.ok a t')
  | error {e e' : Error} {t t' : σ} : errors e e' → related t t' →
      Agrees errors related (.error e t) (.error e' t')

namespace Agrees

variable {α β : Type} {errors : Error → Error → Prop} {related : State → State → Prop}
variable {s s' : State}

theorem mono {related' : State → State → Prop} {result result' : EStateM.Result Error State α}
    (agrees : Agrees errors related result result')
    (weaker : ∀ {t t'}, related t t' → related' t t') : Agrees errors related' result result' := by
  cases agrees with
  | ok agree => exact .ok (weaker agree)
  | error same agree => exact .error same (weaker agree)

theorem exists_ok {result result' : EStateM.Result Error State α} {a : α} {t : State}
    (agrees : Agrees errors related result result') (ran : result = .ok a t) :
    ∃ t', result' = .ok a t' ∧ related t t' := by
  subst ran
  cases agrees with
  | ok agree => exact ⟨_, rfl, agree⟩

theorem exists_error {result result' : EStateM.Result Error State α} {e : Error} {t : State}
    (agrees : Agrees errors related result result') (ran : result = .error e t) :
    ∃ e' t', result' = .error e' t' ∧ errors e e' ∧ related t t' := by
  subst ran
  cases agrees with
  | error same agree => exact ⟨_, _, rfl, same, agree⟩

theorem exists_ok_left {result result' : EStateM.Result Error State α} {a : α} {t' : State}
    (agrees : Agrees errors related result result') (ran : result' = .ok a t') :
    ∃ t, result = .ok a t ∧ related t t' := by
  subst ran
  cases agrees with
  | ok agree => exact ⟨_, rfl, agree⟩

theorem exists_error_left {result result' : EStateM.Result Error State α} {e' : Error} {t' : State}
    (agrees : Agrees errors related result result') (ran : result' = .error e' t') :
    ∃ e t, result = .error e t ∧ errors e e' ∧ related t t' := by
  subst ran
  cases agrees with
  | error same agree => exact ⟨_, _, rfl, same, agree⟩

theorem bind {x x' : Gen α} {f f' : α → Gen β} (first : Agrees errors related (x s) (x' s'))
    (rest : ∀ a t t', x s = .ok a t → x' s' = .ok a t' → related t t' →
      Agrees errors related (f a t) (f' a t')) :
    Agrees errors related ((x >>= f) s) ((x' >>= f') s') := by
  cases ran : x s with
  | ok a t =>
      obtain ⟨t', ran', agree⟩ := first.exists_ok ran
      rw [bind_apply_of_ok ran, bind_apply_of_ok ran']
      exact rest a t t' ran ran' agree
  | error e t =>
      obtain ⟨e', t', ran', same, agree⟩ := first.exists_error ran
      rw [bind_apply_of_error ran, bind_apply_of_error ran']
      exact .error same agree

/-- A fragment that must leave one value, counted in related states. -/
theorem value {x x' : Gen Unit} (agrees : Agrees errors related (x s) (x' s'))
    (errors_refl : ∀ e, errors e e)
    (sizes : ∀ t t', related t t' → t'.frame.size = t.frame.size)
    (starts : s'.frame.size = s.frame.size)
    (peeks : ∀ t t', related t t' → Agrees errors related (Gen.peek t) (Gen.peek t')) :
    Agrees errors related (Gen.value x s) (Gen.value x' s') := by
  have counted : ∀ (a : Unit) (t t' : State), x s = .ok a t → x' s' = .ok a t' → related t t' →
      Agrees errors related
        ((if ((t.frame.size : Int) - s.frame.size) ≠ 1 then
          (do throw (.internal (.notOneValue (t.frame.size - s.frame.size))); Gen.peek)
          else Gen.peek : Gen JType) t)
        ((if ((t'.frame.size : Int) - s'.frame.size) ≠ 1 then
          (do throw (.internal (.notOneValue (t'.frame.size - s'.frame.size))); Gen.peek)
          else Gen.peek : Gen JType) t') := by
    intro _ t t' _ _ after
    rw [starts, sizes t t' after]
    split
    · exact .error (errors_refl _) after
    · exact peeks t t' after
  exact agrees.bind counted

end Agrees

/-! ## Twin states -/

/-- States that agree up to the numbers of labels and the positions under which
types are remembered. -/
structure Twin (pairing : Pairing) (renumbering : Renumbering) (s s' : State) : Prop where
  frame_eq : s'.frame = renumbering.frame s.frame
  base_le : renumbering.base ≤ s.output.nextLabel
  nextLabel_eq : s'.output.nextLabel + renumbering.base = s.output.nextLabel + renumbering.base'
  code_eq : ∃ code, s.code = renumbering.start ++ code ∧
    s'.code = renumbering.start' ++ code.map renumbering.instr
  memory_eq : ∀ {p p'}, pairing.positions p p' → s.probed[p]? = s'.probed[p']?
  depth_iff : ∀ {p p'}, pairing.positions p p' → (s.depth = 0 ↔ s'.depth = 0)

namespace Twin

variable {α : Type} {pairing : Pairing} {renumbering : Renumbering} {s s' : State}

theorem onFrame {op op' : FrameOp α} (twin : Twin pairing renumbering s s')
    (agrees : Agrees pairing.errors (fun g g' => g' = renumbering.frame g) (op s.frame)
      (op' (renumbering.frame s.frame))) :
    Agrees pairing.errors (Twin pairing renumbering) (Gen.onFrame op s) (Gen.onFrame op' s') := by
  have kept (g : Frame) : Twin pairing renumbering { s with frame := g }
      { s' with frame := renumbering.frame g } :=
    ⟨rfl, twin.base_le, twin.nextLabel_eq, twin.code_eq, twin.memory_eq, twin.depth_iff⟩
  simp only [Gen.onFrame, twin.frame_eq]
  generalize op s.frame = result at agrees ⊢
  generalize op' (renumbering.frame s.frame) = result' at agrees ⊢
  cases agrees with
  | ok same =>
      subst same
      exact .ok (kept _)
  | error agree same =>
      subst same
      exact .error agree (kept _)

theorem onQuietFrame {op : FrameOp α} (twin : Twin pairing renumbering s s')
    (quiet : Frame.Quiet op) :
    Agrees pairing.errors (Twin pairing renumbering) (Gen.onFrame op s) (Gen.onFrame op s') := by
  apply twin.onFrame
  have renumbered : op (renumbering.frame s.frame) =
      Frame.withShapes (renumbering.shapes s.frame.shapes) (op s.frame) := quiet.shapes _ _
  rw [renumbered]
  cases ran : op s.frame with
  | ok a g =>
      apply Agrees.ok
      simp [Renumbering.frame, quiet.shapes_eq ran]
  | error e g =>
      apply Agrees.error (pairing.errors_refl e)
      simp [Renumbering.frame, quiet.error_shapes_eq ran]

theorem markDead (twin : Twin pairing renumbering s s') :
    Agrees pairing.errors (Twin pairing renumbering) (Gen.onFrame Frame.markDead s)
      (Gen.onFrame Frame.markDead s') :=
  twin.onFrame (.ok rfl)

theorem write (twin : Twin pairing renumbering s s') (ctx : Context) (instr : Instr) :
    Agrees pairing.errors (Twin pairing renumbering) (Gen.write ctx instr s)
      (Gen.write ctx (renumbering.instr instr) s') := by
  obtain ⟨code, codeEq, codeEq'⟩ := twin.code_eq
  refine .ok ⟨twin.frame_eq, twin.base_le, twin.nextLabel_eq, ⟨code ++ [instr], ?_, ?_⟩,
    twin.memory_eq, twin.depth_iff⟩
  · unfold State.code at codeEq
    simp [State.code, Output.push, codeEq]
  · unfold State.code at codeEq'
    simp [State.code, Output.push, codeEq']

theorem emit {ctx : Context} (twin : Twin pairing renumbering s s') {instr : Instr}
    (noMark : instr.isMark = false) :
    Agrees pairing.errors (Twin pairing renumbering) (Gen.emit ctx instr s)
      (Gen.emit ctx instr s') := by
  have written := twin.write ctx instr
  rw [Renumbering.instr_of_not_isMark noMark] at written
  refine written.bind fun _ t t' _ _ twin => ?_
  cases instr with
  | op code =>
      dsimp only
      split
      · exact twin.markDead
      · exact .ok twin
  | _ => exact .ok twin

theorem newLabel (twin : Twin pairing renumbering s s') :
    ∃ label label' t t', Gen.newLabel s = .ok label t ∧ Gen.newLabel s' = .ok label' t' ∧
      renumbering.Relates label label' ∧ Twin pairing renumbering t t' := by
  have offset := twin.nextLabel_eq
  have bound := twin.base_le
  refine ⟨_, _, _, _, rfl, rfl, ⟨bound, ?_⟩, ?_⟩
  · simp only [Renumbering.label, Label.mk.injEq]
    omega
  · refine ⟨twin.frame_eq, ?_, ?_, twin.code_eq, twin.memory_eq, twin.depth_iff⟩
    · simp only
      omega
    · simp only
      omega

section Labels

/-- An error about a label and one about its new number are taken as the same. -/
def Tolerates (pairing : Pairing) (renumbering : Renumbering) : Prop :=
  ∀ label expected found, renumbering.base ≤ label.id →
    pairing.errors (.internal (.stackMismatch label expected found))
      (.internal (.stackMismatch (renumbering.label label) expected found))

variable {label label' : Label}

theorem merge (tolerates : Tolerates pairing renumbering)
    (relates : renumbering.Relates label label') (shape : List JType) (f : Frame) :
    Agrees pairing.errors (fun g g' => g' = renumbering.frame g) (Frame.merge label shape f)
      (Frame.merge label' shape (renumbering.frame f)) := by
  obtain ⟨bound, rfl⟩ := relates
  unfold Frame.merge
  have found : (renumbering.frame f).shapes.lookup (renumbering.label label) =
      f.shapes.lookup label := Renumbering.lookup_shapes bound f.shapes
  rw [found]
  cases f.shapes.lookup label with
  | some expected =>
      dsimp only
      split
      · exact .ok rfl
      · exact .error (tolerates label _ _ bound) rfl
  | none =>
      refine .ok ?_
      simp [Renumbering.frame, Renumbering.shapes_cons bound]

theorem jump {ctx : Context} (twin : Twin pairing renumbering s s')
    (tolerates : Tolerates pairing renumbering) (relates : renumbering.Relates label label')
    (code : Opcode) :
    Agrees pairing.errors (Twin pairing renumbering) (Gen.jump ctx code label s)
      (Gen.jump ctx code label' s') := by
  have recorded : Agrees pairing.errors (fun g g' => g' = renumbering.frame g)
      (Frame.jumpTo label s.frame) (Frame.jumpTo label' (renumbering.frame s.frame)) :=
    merge tolerates relates s.frame.stack s.frame
  refine (twin.onFrame recorded).bind fun _ t t' _ _ twin => ?_
  have written := twin.write ctx (.jump code label)
  rw [Renumbering.instr, ← relates.2] at written
  refine written.bind fun _ u u' _ _ twin => ?_
  split
  · exact twin.markDead
  · exact .ok twin

theorem place (twin : Twin pairing renumbering s s') (ctx : Context)
    (tolerates : Tolerates pairing renumbering) (relates : renumbering.Relates label label') :
    Agrees pairing.errors (Twin pairing renumbering) (Gen.place ctx label s)
      (Gen.place ctx label' s') := by
  have entered : Agrees pairing.errors (fun g g' => g' = renumbering.frame g)
      (Frame.place label s.frame) (Frame.place label' (renumbering.frame s.frame)) := by
    unfold Frame.place
    have aliveEq : (renumbering.frame s.frame).alive = s.frame.alive := rfl
    rw [aliveEq]
    cases s.frame.alive with
    | true => exact merge tolerates relates s.frame.stack s.frame
    | false =>
        have found : (renumbering.frame s.frame).shapes.lookup label' =
            s.frame.shapes.lookup label := by
          rw [relates.2]
          exact Renumbering.lookup_shapes relates.1 s.frame.shapes
        rw [found]
        cases s.frame.shapes.lookup label with
        | some shape => exact .ok rfl
        | none => exact .ok rfl
  refine (twin.onFrame entered).bind fun _ t t' _ _ twin => ?_
  have written := twin.write ctx (.label label)
  rwa [Renumbering.instr, ← relates.2] at written

end Labels

theorem value {x x' : Gen Unit} (twin : Twin pairing renumbering s s')
    (agrees : Agrees pairing.errors (Twin pairing renumbering) (x s) (x' s')) :
    Agrees pairing.errors (Twin pairing renumbering) (Gen.value x s) (Gen.value x' s') := by
  have sizeEq {t t' : State} (twin : Twin pairing renumbering t t') :
      t'.frame.size = t.frame.size := by
    rw [twin.frame_eq]
    rfl
  exact agrees.value pairing.errors_refl (fun _ _ => sizeEq) (sizeEq twin)
    fun _ _ after => after.onQuietFrame .peek

/-- An operation is entered and left on both sides. -/
theorem operation {x x' : Gen Unit} {name : String} (twin : Twin pairing renumbering s s')
    (agrees : Agrees pairing.errors (Twin pairing renumbering)
      (x { s with depth := s.depth + 1 }) (x' { s' with depth := s'.depth + 1 })) :
    Agrees pairing.errors (Twin pairing renumbering) (Gen.operation name x s)
      (Gen.operation name x' s') := by
  have left : ∀ t t', Twin pairing renumbering t t' →
      Twin pairing renumbering (t.leave s.depth) (t'.leave s'.depth) := by
    intro t t' inner
    refine ⟨inner.frame_eq, inner.base_le, inner.nextLabel_eq, inner.code_eq, ?_, twin.depth_iff⟩
    intro p p' same
    by_cases outermost : s.depth = 0
    · simp [State.leave, outermost, (twin.depth_iff same).mp outermost]
    · simp [State.leave, outermost, mt (twin.depth_iff same).mpr outermost, inner.memory_eq same]
  have entered : Twin pairing renumbering { s with depth := s.depth + 1 }
      { s' with depth := s'.depth + 1 } :=
    ⟨twin.frame_eq, twin.base_le, twin.nextLabel_eq, twin.code_eq, twin.memory_eq, by simp⟩
  have aliveEq : s'.frame.alive = s.frame.alive := by
    rw [twin.frame_eq]
    rfl
  rw [Gen.operation_apply, Gen.operation_apply, aliveEq]
  cases s.frame.alive with
  | true =>
      generalize x { s with depth := s.depth + 1 } = result at agrees
      generalize x' { s' with depth := s'.depth + 1 } = result' at agrees
      cases agrees with
      | ok inner => exact .ok (left _ _ inner)
      | error same inner => exact .error same (left _ _ inner)
  | false => exact .error (pairing.errors_refl _) (left _ _ entered)

/-- A probe answers from the memory on both sides or makes dry runs, in which
labels have the same numbers. -/
theorem probe {ctx : Context} {operand operand' : Gen.Operand}
    (twin : Twin pairing renumbering s s')
    (positions : pairing.positions operand.position operand'.position)
    (dryRuns : Twin pairing ⟨2147483648, 2147483648, [], []⟩ s.dryRun s'.dryRun →
      Agrees pairing.errors (Twin pairing ⟨2147483648, 2147483648, [], []⟩)
        (Gen.value operand.code s.dryRun) (Gen.value operand'.code s'.dryRun)) :
    Agrees pairing.errors (Twin pairing renumbering) (Gen.probe ctx operand s)
      (Gen.probe ctx operand' s') := by
  have dryTwin : Twin pairing ⟨2147483648, 2147483648, [], []⟩ s.dryRun s'.dryRun :=
    { frame_eq := by simp [State.dryRun, twin.frame_eq, Frame.fork, Renumbering.frame, Renumbering.shapes]
      base_le := le_refl _
      nextLabel_eq := rfl
      code_eq := ⟨[], rfl, rfl⟩
      memory_eq := twin.memory_eq
      depth_iff := by simp [State.dryRun] }
  have agrees := dryRuns dryTwin
  cases mode : ctx.probing with
  | remembered =>
      simp only [Gen.probe, mode, Gen.probeRemembered]
      rw [← twin.memory_eq positions]
      cases s.probed[operand.position]? with
      | some ty => exact .ok twin
      | none =>
          generalize Gen.value operand.code s.dryRun = result at agrees ⊢
          generalize Gen.value operand'.code s'.dryRun = result' at agrees ⊢
          have kept {memory memory' : ProbeMemory} (log log' : Array LogLine)
              (same : ∀ {p p'}, pairing.positions p p' → memory[p]? = memory'[p']?) :
              Twin pairing renumbering (s.afterProbe memory log) (s'.afterProbe memory' log') := by
            refine ⟨twin.frame_eq, twin.base_le, twin.nextLabel_eq, twin.code_eq, ?_, twin.depth_iff⟩
            intro p p' positions
            have outermostIff := twin.depth_iff positions
            by_cases outermost : s.depth = 0
            · simp [State.afterProbe, outermost, outermostIff.mp outermost]
            · simp [State.afterProbe, outermost, mt outermostIff.mpr outermost, same positions]
          cases agrees with
          | @ok ty dry dry' inner =>
              apply Agrees.ok
              apply kept
              intro p p' here
              rw [Std.TreeMap.getElem?_insert, Std.TreeMap.getElem?_insert]
              have same := pairing.positions_inj positions here
              by_cases isPosition : operand.position = p
              · simp [isPosition, same.mp isPosition]
              · simp [isPosition, mt same.mpr isPosition, inner.memory_eq here]
          | error same inner => exact .error same (kept _ _ inner.memory_eq)
  | fresh =>
      simp only [Gen.probe, mode, Gen.probeFresh]
      generalize Gen.value operand.code s.dryRun = result at agrees ⊢
      generalize Gen.value operand'.code s'.dryRun = result' at agrees ⊢
      have kept (log log' : Array LogLine) :
          Twin pairing renumbering { s with log } { s' with log := log' } :=
        ⟨twin.frame_eq, twin.base_le, twin.nextLabel_eq, twin.code_eq, twin.memory_eq,
          twin.depth_iff⟩
      cases agrees with
      | ok _ => exact .ok (kept _ _)
      | error same _ => exact .error same (kept _ _)

end Twin

/-! ## Runs -/

namespace Gen

variable {α : Type} {ctx : Context} {pairing : Pairing}

/-- Actions made of the same steps agree on twin states.  If they succeed, the
labels that they leave pending correspond. -/
theorem Parallel.agrees {live : Bool} {heads pending after : List (Label × Label)} {x x' : Gen α}
    (parallel : Parallel ctx pairing live heads pending x x' after) {renumbering : Renumbering}
    (tolerates : Twin.Tolerates pairing renumbering)
    (relates : ∀ pair ∈ heads ++ pending, renumbering.Relates pair.1 pair.2) {s s' : State}
    (twin : Twin pairing renumbering s s') :
    Agrees pairing.errors (Twin pairing renumbering) (x s) (x' s') ∧
      ((∃ a t, x s = .ok a t) → ∀ pair ∈ after, renumbering.Relates pair.1 pair.2) := by
  induction parallel generalizing renumbering s s' with
  | pure a => exact ⟨.ok twin, fun _ pair mem => relates pair (List.mem_append_right _ mem)⟩
  | throw same =>
      exact ⟨.error same twin, fun _ pair mem => relates pair (List.mem_append_right _ mem)⟩
  | @bind live heads pending middle after α β x x' f f' _ _ ihFirst ihRest =>
      obtain ⟨first, left⟩ := ihFirst tolerates relates twin
      have known {a : α} {t : State} (ran : x s = .ok a t) :
          ∀ pair ∈ heads ++ middle, renumbering.Relates pair.1 pair.2 := by
        intro pair mem
        rcases List.mem_append.mp mem with isHead | isPending
        · exact relates pair (List.mem_append_left _ isHead)
        · exact left ⟨a, t, ran⟩ pair isPending
      constructor
      · exact first.bind fun a t t' ran _ inner => (ihRest a tolerates (known ran) inner).1
      · rintro ⟨b, u, run⟩
        obtain ⟨a, t, ran, rest⟩ := bind_eq_ok.mp run
        obtain ⟨t', -, inner⟩ := first.exists_ok ran
        exact (ihRest a tolerates (known ran) inner).2 ⟨b, u, rest⟩
  | onFrame quiet =>
      exact ⟨twin.onQuietFrame quiet, fun _ pair mem => relates pair (List.mem_append_right _ mem)⟩
  | emit noMark =>
      exact ⟨twin.emit noMark, fun _ pair mem => relates pair (List.mem_append_right _ mem)⟩
  | @newLabel live heads pending after α f f' _ ih =>
      obtain ⟨label, label', t, t', allocated, allocated', related, inner⟩ := twin.newLabel
      have known : ∀ pair ∈ heads ++ (label, label') :: pending,
          renumbering.Relates pair.1 pair.2 := by
        intro pair mem
        rcases List.mem_append.mp mem with isHead | isPending
        · exact relates pair (List.mem_append_left _ isHead)
        · rcases List.mem_cons.mp isPending with rfl | isPending
          · exact related
          · exact relates pair (List.mem_append_right _ isPending)
      obtain ⟨agrees, left⟩ := ih label label' tolerates known inner
      rw [bind_apply_of_ok allocated, bind_apply_of_ok allocated']
      exact ⟨agrees, left⟩
  | jump code known =>
      exact ⟨twin.jump tolerates (relates _ known) code,
        fun _ pair mem => relates pair (List.mem_append_right _ mem)⟩
  | @place live heads pending after label label' isPending =>
      have related := relates (label, label')
        (List.mem_append_right _ (isPending.mem_iff.mpr (by simp)))
      refine ⟨twin.place ctx tolerates related, fun _ pair mem => relates pair ?_⟩
      exact List.mem_append_right _ (isPending.mem_iff.mpr (List.mem_cons_of_mem _ mem))
  | @head heads pending after after' label label' α f f' isPending _ ih =>
      have related := relates (label, label')
        (List.mem_append_right _ (isPending.mem_iff.mpr (by simp)))
      have known : ∀ pair ∈ (label, label') :: heads ++ after, renumbering.Relates pair.1 pair.2 := by
        intro pair mem
        rcases List.mem_append.mp mem with isHead | isPending'
        · rcases List.mem_cons.mp isHead with rfl | isHead
          · exact related
          · exact relates pair (List.mem_append_left _ isHead)
        · exact relates pair
            (List.mem_append_right _ (isPending.mem_iff.mpr (List.mem_cons_of_mem _ isPending')))
      have placed := twin.place ctx tolerates related
      refine ⟨placed.bind fun _ t t' _ _ inner => (ih tolerates known inner).1, ?_⟩
      rintro ⟨b, u, run⟩
      obtain ⟨_, t, ran, rest⟩ := bind_eq_ok.mp run
      obtain ⟨t', -, inner⟩ := placed.exists_ok ran
      exact (ih tolerates known inner).2 ⟨b, u, rest⟩
  | value _ ih =>
      obtain ⟨agrees, left⟩ := ih tolerates relates twin
      refine ⟨twin.value agrees, ?_⟩
      rintro ⟨ty, t, run⟩
      exact left ⟨(), t, (value_eq_ok.mp run).1⟩
  | operation name _ ih =>
      have entered : Twin pairing renumbering { s with depth := s.depth + 1 }
          { s' with depth := s'.depth + 1 } :=
        ⟨twin.frame_eq, twin.base_le, twin.nextLabel_eq, twin.code_eq, twin.memory_eq, by simp⟩
      exact ⟨twin.operation (ih tolerates relates entered).1,
        fun _ pair mem => relates pair (List.mem_append_right _ mem)⟩
  | probe positions _ ih =>
      refine ⟨twin.probe positions fun dryTwin => ?_,
        fun _ pair mem => relates pair (List.mem_append_right _ mem)⟩
      refine dryTwin.value (ih ?_ (by simp) dryTwin).1
      intro label expected found bound
      have same : Renumbering.label ⟨2147483648, 2147483648, [], []⟩ label = label := by
        rcases label with ⟨id⟩
        simp only [Renumbering.label, Label.mk.injEq] at bound ⊢
        omega
      rw [same]
      exact pairing.errors_refl _

end Gen

end JvmAssembler
