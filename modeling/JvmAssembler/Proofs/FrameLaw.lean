import Mathlib
import JvmAssembler.Proofs.OperandFlow
import JvmAssembler.Proofs.Probing

/-!
# Value fragments and the operands below them

Generating does the same on top of further operands: whatever succeeds on a
stack succeeds where more lies below, and leaves that alone.  So a fragment can
only disturb operands that it takes.

A value fragment is checked by counting: it must leave one operand more than it
found.  Main statement: it then leaves the operands below alone if it takes none
of them, as value chains do.  A fragment may however discard an operand that it
did not push and make up for it.
-/

namespace JvmAssembler

open Gen

/-! ## States with further operands below -/

/-- The state with these operands on the stack. -/
def State.withStack (s : State) (stack : List JType) : State :=
  { s with frame := { s.frame with stack, depth := JType.slotCount stack } }

/-- The second state has the operands of the first one on top of others, and so
have the shapes that are recorded for labels from a number on. -/
structure State.Atop (low : List JType) (first : Nat) (s s' : State) : Prop where
  frame_eq : ∃ depth maxStack shapes,
    s'.frame = { s.frame with stack := s.frame.stack ++ low, depth, maxStack, shapes }
  shapes_eq : ∀ label, first ≤ label.id →
    s'.frame.shapes.lookup label = (s.frame.shapes.lookup label).map (· ++ low)
  first_le : first ≤ s.output.nextLabel
  output_eq : s'.output = s.output
  probed_eq : s'.probed = s.probed
  depth_eq : s'.depth = s.depth

namespace State.Atop

variable {low : List JType} {first : Nat} {s s' : State}

theorem stack_eq (atop : Atop low first s s') : s'.frame.stack = s.frame.stack ++ low := by
  obtain ⟨_, _, _, frame⟩ := atop.frame_eq
  rw [frame]

theorem alive_eq (atop : Atop low first s s') : s'.frame.alive = s.frame.alive := by
  obtain ⟨_, _, _, frame⟩ := atop.frame_eq
  rw [frame]

/-- A change of the frames alone. -/
theorem withFrame (atop : Atop low first s s') {g g' : Frame}
    (frame : ∃ depth maxStack shapes,
      g' = { g with stack := g.stack ++ low, depth, maxStack, shapes })
    (shapes : ∀ label, first ≤ label.id →
      g'.shapes.lookup label = (g.shapes.lookup label).map (· ++ low)) :
    Atop low first { s with frame := g } { s' with frame := g' } :=
  ⟨frame, shapes, atop.first_le, atop.output_eq, atop.probed_eq, atop.depth_eq⟩

/-- Recording operands for one of the labels. -/
theorem merge (atop : Atop low first s s') {label : Label} (own : first ≤ label.id)
    {shape : List JType} {g : Frame} (run : Frame.merge label shape s.frame = .ok () g) :
    ∃ g', Frame.merge label (shape ++ low) s'.frame = .ok () g' ∧
      Atop low first { s with frame := g } { s' with frame := g' } := by
  obtain ⟨records, shapes, rfl⟩ := Frame.merge_eq_ok run
  have agrees : ∀ known, s'.frame.shapes.lookup label = some known → known = shape ++ low := by
    rw [atop.shapes_eq label own]
    intro known found
    obtain ⟨recorded, there, rfl⟩ := Option.map_eq_some_iff.mp found
    rw [records.agrees recorded there]
  obtain ⟨g', ran⟩ := Frame.merge_of_agrees agrees
  obtain ⟨records', shapes', rfl⟩ := Frame.merge_eq_ok ran
  refine ⟨_, ran, atop.withFrame ?_ fun other ownOther => ?_⟩
  · obtain ⟨depth, maxStack, _, frame⟩ := atop.frame_eq
    exact ⟨depth, maxStack, shapes', by rw [frame]⟩
  · rw [records.lookup_eq, records'.lookup_eq]
    split
    · rfl
    · exact atop.shapes_eq other ownOther

/-- Dry runs know no shapes, so that all labels are their own. -/
theorem dryRun (atop : Atop low first s s') : Atop low 0 s.dryRun s'.dryRun where
  frame_eq := by
    obtain ⟨depth, maxStack, _, frame⟩ := atop.frame_eq
    exact ⟨depth, maxStack, [], by simp [State.dryRun, Frame.fork, frame]⟩
  shapes_eq _ _ := rfl
  first_le := Nat.zero_le _
  output_eq := rfl
  probed_eq := atop.probed_eq
  depth_eq := congrArg (· + 1) atop.depth_eq

end State.Atop

/-! ## Actions on top of further operands -/

namespace Gen

/-- The second action does on top of further operands what the first one does
without them. -/
def Framed (low : List JType) (first : Nat) {α : Type} (x x' : Gen α) : Prop :=
  ∀ ⦃s s' a t⦄, State.Atop low first s s' → x s = .ok a t →
    ∃ t', x' s' = .ok a t' ∧ State.Atop low first t t'

namespace Framed

variable {α β : Type} {ctx : Context} {low : List JType} {first : Nat}

theorem pure (a : α) : Framed low first (pure a : Gen α) (pure a) := by
  intro s s' _ t atop run
  obtain ⟨rfl, rfl⟩ := pure_eq_ok.mp run
  exact ⟨s', rfl, atop⟩

theorem bind {x x' : Gen α} {f f' : α → Gen β} (start : Framed low first x x')
    (rest : ∀ a, Framed low first (f a) (f' a)) : Framed low first (x >>= f) (x' >>= f') := by
  intro s s' b t atop run
  obtain ⟨a, u, ran, others⟩ := bind_eq_ok.mp run
  obtain ⟨u', ran', atop⟩ := start atop ran
  obtain ⟨t', others', atop⟩ := rest a atop others
  exact ⟨t', bind_eq_ok.mpr ⟨a, u', ran', others'⟩, atop⟩

theorem ite {condition : Prop} [Decidable condition] {x x' y y' : Gen α}
    (yes : Framed low first x x') (no : Framed low first y y') :
    Framed low first (if condition then x else y) (if condition then x' else y') := by
  split
  · exact yes
  · exact no

theorem onFrame {op : FrameOp α} (quiet : Frame.Quiet op) :
    Framed low first (onFrame op) (onFrame op) := by
  intro s s' a t atop run
  obtain ⟨g, ran, rfl⟩ := onFrame_eq_ok.mp run
  obtain ⟨depth, maxStack, shapes, frame⟩ := atop.frame_eq
  obtain ⟨depth', maxStack', lifted⟩ := quiet.atop low depth maxStack ran
  have ran' : op s'.frame = .ok a
      { g with stack := g.stack ++ low, depth := depth', maxStack := maxStack', shapes } := by
    have other := quiet.shapes { s.frame with stack := s.frame.stack ++ low, depth, maxStack } shapes
    rw [lifted] at other
    rw [frame]
    exact other
  refine ⟨_, onFrame_eq_ok.mpr ⟨_, ran', rfl⟩, atop.withFrame ⟨_, _, _, rfl⟩ fun label own => ?_⟩
  have recorded := atop.shapes_eq label own
  rw [frame] at recorded
  rw [quiet.shapes_eq ran]
  exact recorded

theorem markDead : Framed low first (Gen.onFrame Frame.markDead) (Gen.onFrame Frame.markDead) := by
  intro s s' _ t atop run
  cases run
  obtain ⟨depth, maxStack, shapes, frame⟩ := atop.frame_eq
  refine ⟨_, rfl, atop.withFrame ⟨depth, maxStack, shapes, ?_⟩ atop.shapes_eq⟩
  rw [frame]

theorem write (instr : Instr) : Framed low first (write ctx instr) (write ctx instr) := by
  intro s s' _ t atop run
  cases run
  refine ⟨_, rfl, atop.frame_eq, atop.shapes_eq, atop.first_le, ?_, atop.probed_eq, atop.depth_eq⟩
  simp [atop.output_eq]

theorem emit (instr : Instr) : Framed low first (emit ctx instr) (emit ctx instr) := by
  refine bind (write instr) fun _ => ?_
  cases instr with
  | op code => exact ite markDead (pure ())
  | _ => exact pure ()

theorem newLabel : Framed low first newLabel newLabel := by
  intro s s' label t atop run
  obtain ⟨rfl, rfl⟩ := newLabel_eq_ok.mp run
  refine ⟨_, newLabel_eq_ok.mpr ⟨by rw [atop.output_eq], rfl⟩,
    { atop with first_le := Nat.le_succ_of_le atop.first_le, output_eq := ?_ }⟩
  simp only [atop.output_eq]

section Labels

variable {label : Label} (own : first ≤ label.id)

include own

theorem jump (code : Opcode) : Framed low first (jump ctx code label) (jump ctx code label) := by
  have records : Framed low first (Gen.onFrame (Frame.jumpTo label))
      (Gen.onFrame (Frame.jumpTo label)) := by
    intro s s' _ t atop run
    obtain ⟨g, merged, rfl⟩ := onFrame_eq_ok.mp run
    obtain ⟨g', merged', atop'⟩ := atop.merge own merged
    rw [← atop.stack_eq] at merged'
    exact ⟨_, onFrame_eq_ok.mpr ⟨g', merged', rfl⟩, atop'⟩
  exact bind records fun _ => bind (write _) fun _ => ite markDead (pure ())

theorem place : Framed low first (place ctx label) (place ctx label) := by
  have enters : Framed low first (Gen.onFrame (Frame.place label))
      (Gen.onFrame (Frame.place label)) := by
    intro s s' _ t atop run
    obtain ⟨g, placed, rfl⟩ := onFrame_eq_ok.mp run
    suffices ∃ g', Frame.place label s'.frame = .ok () g' ∧
        State.Atop low first { s with frame := g } { s' with frame := g' } by
      obtain ⟨g', placed', atop'⟩ := this
      exact ⟨_, onFrame_eq_ok.mpr ⟨g', placed', rfl⟩, atop'⟩
    have recorded := atop.shapes_eq label own
    rcases Frame.place_eq_ok.mp placed with
      ⟨alive, merges⟩ | ⟨dead, unknown, same⟩ | ⟨dead, shape, known, rfl⟩
    · obtain ⟨g', merged, atop'⟩ := atop.merge own merges
      rw [← atop.stack_eq] at merged
      exact ⟨g', Frame.place_eq_ok.mpr (.inl ⟨atop.alive_eq.trans alive, merged⟩), atop'⟩
    · rw [unknown] at recorded
      subst same
      exact ⟨s'.frame, Frame.place_eq_ok.mpr (.inr (.inl ⟨atop.alive_eq.trans dead, recorded, rfl⟩)),
        atop⟩
    · -- what lies below comes with the recorded shape
      rw [known] at recorded
      obtain ⟨depth, maxStack, shapes, frame⟩ := atop.frame_eq
      refine ⟨_, Frame.place_eq_ok.mpr
          (.inr (.inr ⟨atop.alive_eq.trans dead, shape ++ low, recorded, rfl⟩)),
        atop.withFrame ⟨JType.slotCount (shape ++ low), maxStack, shapes, ?_⟩ atop.shapes_eq⟩
      rw [frame]
  exact bind enters fun _ => write _

end Labels

theorem value {x x' : Gen Unit} (framed : Framed low first x x') :
    Framed low first (value x) (value x') := by
  intro s s' ty t atop run
  obtain ⟨generated, rest, stack, counted⟩ := value_eq_ok.mp run
  obtain ⟨t', generated', atop'⟩ := framed atop generated
  refine ⟨t', value_eq_ok.mpr ⟨generated', rest ++ low, ?_, ?_⟩, atop'⟩
  · rw [atop'.stack_eq, stack, List.cons_append]
  · rw [atop.stack_eq, List.length_append, List.length_append, counted]

theorem operation (name : String) {x x' : Gen Unit} (framed : Framed low first x x') :
    Framed low first (operation name x) (operation name x') := by
  intro s s' _ t atop run
  obtain ⟨alive, u, ran, rfl⟩ := operation_eq_ok.mp run
  have entered : State.Atop low first { s with depth := s.depth + 1 }
      { s' with depth := s'.depth + 1 } :=
    { atop with depth_eq := congrArg (· + 1) atop.depth_eq }
  obtain ⟨u', ran', inner⟩ := framed entered ran
  refine ⟨_, operation_eq_ok.mpr ⟨atop.alive_eq.trans alive, u', ran', rfl⟩, inner.frame_eq,
    inner.shapes_eq, inner.first_le, inner.output_eq, ?_, atop.depth_eq⟩
  simp [State.leave, atop.depth_eq, inner.probed_eq]

theorem probe {operand operand' : Operand} (position : operand.position = operand'.position)
    (framed : Framed low 0 operand.code operand'.code) :
    Framed low first (probe ctx operand) (probe ctx operand') := by
  intro s s' ty t atop run
  cases probing : ctx.probing with
  | remembered =>
      simp only [Gen.probe, probing, probeRemembered] at run ⊢
      rw [← position, atop.probed_eq]
      cases known : s.probed[operand.position]? with
      | some found =>
          simp only [known] at run ⊢
          cases run
          exact ⟨s', rfl, atop⟩
      | none =>
          simp only [known] at run ⊢
          cases ran : Gen.value operand.code s.dryRun with
          | error e dry => simp [ran] at run
          | ok found dry =>
              obtain ⟨dry', ran', inner⟩ := framed.value atop.dryRun ran
              simp only [ran, EStateM.Result.ok.injEq] at run
              obtain ⟨rfl, rfl⟩ := run
              rw [ran']
              refine ⟨_, rfl, { atop with probed_eq := ?_ }⟩
              simp [State.afterProbe, atop.depth_eq, inner.probed_eq]
  | fresh =>
      simp only [Gen.probe, probing, probeFresh] at run ⊢
      cases ran : Gen.value operand.code s.dryRun with
      | error e dry => simp [ran] at run
      | ok found dry =>
          obtain ⟨dry', ran', inner⟩ := framed.value atop.dryRun ran
          simp only [ran, EStateM.Result.ok.injEq] at run
          obtain ⟨rfl, rfl⟩ := run
          rw [ran']
          exact ⟨_, rfl, { atop with }⟩

end Framed

/-- Pairs of a label from a number on with itself. -/
def Own (first : Nat) (labels : List (Label × Label)) : Prop :=
  ∀ pair ∈ labels, pair.1 = pair.2 ∧ first ≤ pair.1.id

theorem Own.of_perm {first : Nat} {pending after : List (Label × Label)} {label label' : Label}
    (own : Own first pending) (perm : pending.Perm ((label, label') :: after)) :
    (label = label' ∧ first ≤ label.id) ∧ Own first after :=
  List.forall_mem_cons.mp fun pair mem => own pair (perm.mem_iff.mpr mem)

/-- Parallel actions over the same positions, the second one on top of further
operands. -/
theorem Parallel.atop {ctx : Context} {pairing : Pairing} {live : Bool}
    {heads pending after : List (Label × Label)} {α : Type} {x x' : Gen α}
    (parallel : Parallel ctx pairing live heads pending x x' after)
    (same : ∀ {p p'}, pairing.positions p p' → p = p')
    {low : List JType} {first : Nat} (ownHeads : Own first heads) (own : Own first pending)
    {s s' t : State} {a : α} (atop : State.Atop low first s s') (run : x s = .ok a t) :
    (∃ t', x' s' = .ok a t' ∧ State.Atop low first t t') ∧ Own first after := by
  -- dry runs own all labels, so that the number varies through the induction
  induction parallel generalizing first s s' t with
  | pure b => exact ⟨Framed.pure b atop run, own⟩
  | throw _ => cases run
  | bind _ _ ihFirst ihRest =>
      obtain ⟨b, u, ran, others⟩ := bind_eq_ok.mp run
      obtain ⟨⟨u', ran', atop⟩, own⟩ := ihFirst ownHeads own atop ran
      obtain ⟨⟨t', others', atop⟩, own⟩ := ihRest b ownHeads own atop others
      exact ⟨⟨t', bind_eq_ok.mpr ⟨b, u', ran', others'⟩, atop⟩, own⟩
  | onFrame quiet => exact ⟨Framed.onFrame quiet atop run, own⟩
  | emit _ => exact ⟨Framed.emit _ atop run, own⟩
  | newLabel _ ih =>
      obtain ⟨label, u, ran, others⟩ := bind_eq_ok.mp run
      obtain ⟨u', ran', atop'⟩ := Framed.newLabel atop ran
      obtain ⟨rfl, -⟩ := newLabel_eq_ok.mp ran
      have fresh : Own first [(⟨s.output.nextLabel⟩, ⟨s.output.nextLabel⟩)] := by
        simpa [Own] using atop.first_le
      obtain ⟨⟨t', others', atop'⟩, own⟩ := ih _ _ ownHeads
        (List.forall_mem_append.mpr ⟨fresh, own⟩) atop' others
      exact ⟨⟨t', bind_eq_ok.mpr ⟨_, u', ran', others'⟩, atop'⟩, own⟩
  | @jump _ _ _ label label' code mem =>
      obtain ⟨rfl, mine⟩ : label = label' ∧ first ≤ label.id :=
        List.forall_mem_append.mpr ⟨ownHeads, own⟩ _ mem
      exact ⟨Framed.jump mine code atop run, own⟩
  | place perm =>
      obtain ⟨⟨rfl, mine⟩, own⟩ := own.of_perm perm
      exact ⟨Framed.place mine atop run, own⟩
  | head perm _ ih =>
      obtain ⟨⟨rfl, mine⟩, own⟩ := own.of_perm perm
      obtain ⟨_, u, placed, others⟩ := bind_eq_ok.mp run
      obtain ⟨u', placed', atop⟩ := Framed.place mine atop placed
      obtain ⟨⟨t', others', atop⟩, own⟩ :=
        ih (List.forall_mem_cons.mpr ⟨⟨rfl, mine⟩, ownHeads⟩) own atop others
      exact ⟨⟨t', bind_eq_ok.mpr ⟨(), u', placed', others'⟩, atop⟩, own⟩
  | value _ ih =>
      obtain ⟨generated, -⟩ := value_eq_ok.mp run
      have framed := fun ⦃s s' a t⦄ atop run => (@ih first ownHeads own s s' t a atop run).1
      exact ⟨Framed.value framed atop run, (ih ownHeads own atop generated).2⟩
  | operation name _ ih =>
      have framed := fun ⦃s s' a t⦄ atop run => (@ih first ownHeads own s s' t a atop run).1
      exact ⟨Framed.operation name framed atop run, own⟩
  | probe positions _ ih =>
      have none : Own 0 [] := List.forall_mem_nil _
      have framed := fun ⦃s s' a t⦄ atop run => (@ih 0 none none s s' t a atop run).1
      exact ⟨Framed.probe (same positions) framed atop run, own⟩

end Gen

/-! ## Value fragments -/

variable {ctx : Context} {s t : State}

theorem Fragment.code_framed (ctx : Context) (pos : Position) (fragment : Fragment)
    (low : List JType) (first : Nat) :
    Framed low first (fragment.code ctx pos) (fragment.code ctx pos) := by
  intro s s' _ t atop run
  have alike := codeFrom_alike ctx (.below pos) pos pos 0 fragment
    (Pairing.below_covers List.suffix_rfl _) false [] []
  exact (alike.atop (fun positions => positions.1) (List.forall_mem_nil _)
    (List.forall_mem_nil _) atop run).1

/-- Labels that are still to come have no shapes, so that all shapes may differ
at first. -/
theorem State.ShapesBelow.atop {s' : State} {low : List JType} (below : s.ShapesBelow)
    (below' : s'.ShapesBelow)
    (frame : ∃ depth maxStack shapes,
      s'.frame = { s.frame with stack := s.frame.stack ++ low, depth, maxStack, shapes })
    (output : s'.output = s.output) (probed : s'.probed = s.probed) (depth : s'.depth = s.depth) :
    State.Atop low s.output.nextLabel s s' where
  frame_eq := frame
  shapes_eq label fresh := by
    have unknown {t : State} (below : t.ShapesBelow) (fresh : t.output.nextLabel ≤ label.id) :
        t.frame.shapes.lookup label = none := by
      by_contra known
      have old := below label (Option.isSome_iff_ne_none.mpr known)
      omega
    rw [unknown below fresh, unknown below' (by rwa [output])]
    rfl
  first_le := le_refl _
  output_eq := output
  probed_eq := probed
  depth_eq := depth

theorem Reached.atop_withStack (reached : Reached ctx s) {own low : List JType}
    (stack : s.frame.stack = own ++ low) :
    State.Atop low s.output.nextLabel (s.withStack own) s :=
  have below : s.ShapesBelow := reached.invariant.2.2.1
  State.ShapesBelow.atop (s := s.withStack own) below below
    ⟨s.frame.depth, s.frame.maxStack, s.frame.shapes, by simp [State.withStack, ← stack]⟩ rfl rfl rfl

/-- A value fragment does the same with more operands below those on which it
succeeds. -/
theorem Fragment.value_withStack (reached : Reached ctx s) (pos : Position) (fragment : Fragment)
    (own low : List JType) (stack : s.frame.stack = own ++ low) {ty ty' : JType} {u : State}
    (run : value (fragment.code ctx pos) s = .ok ty t)
    (above : value (fragment.code ctx pos) (s.withStack own) = .ok ty' u) :
    ty' = ty ∧ t.frame.stack = u.frame.stack ++ low ∧ t.output = u.output := by
  obtain ⟨t', run', atop⟩ :=
    (fragment.code_framed ctx pos low _).value (reached.atop_withStack stack) above
  cases run.symm.trans run'
  exact ⟨rfl, atop.stack_eq, atop.output_eq⟩

/-- Value chains push their value onto whatever is there. -/
theorem Fragment.value_stack_of_chains (reached : Reached ctx s) (pos : Position)
    {fragment : Fragment}
    (chains : ∀ operand ∈ fragment :: operandsIn fragment, operand.isValueChain = true)
    {ty : JType} (run : value (fragment.code ctx pos) s = .ok ty t) :
    t.frame.stack = ty :: s.frame.stack := by
  obtain ⟨-, empty, below, matched⟩ := reached.invariant
  have alive : s.frame.alive = true := by
    obtain ⟨generated, -⟩ := value_eq_ok.mp run
    cases fragment with
    | nil => simp [isValueChain] at chains
    | cons op rest =>
        obtain ⟨_, _, performed, -⟩ := bind_eq_ok.mp generated
        exact (operation_eq_ok.mp performed).1
  -- the fragment counts as an operand, the one at its own position
  let operandAt? (path : List Nat) := if path = [] then some fragment else operandIn? 0 fragment path
  obtain ⟨types, knows, known⟩ := @exists_known _ operandAt? ctx pos s chains
    fun _ _ _ => by simp [empty]
  have knownOperand : KnownOperand ctx s.frame.locals types pos fragment :=
    { chain := chains fragment List.mem_cons_self
      type_eq := known.agrees [] fragment (if_pos rfl)
      inner := known.mono (List.subset_cons_self _ _) fun path operand found => by
        have inside : path ≠ [] := by
          rintro rfl
          cases fragment <;> simp [operandIn?] at found
        simp [operandAt?, inside, found] }
  have ready : Ready s.frame.locals types s := ⟨⟨rfl, matched, below, knows⟩, alive⟩
  exact (knownOperand.ofOperand.evaluates.value ready run).2.2.stack_eq

/-- A value fragment leaves one operand more, and its value is on top.  Operands
below those that it needs stay as they are.  If it needs none, or if it and its
operands are value chains, then all that were there stay. -/
theorem Fragment.value_frame (reached : Reached ctx s) (pos : Position) (fragment : Fragment)
    {ty : JType} (run : value (fragment.code ctx pos) s = .ok ty t) :
    (∃ below, t.frame.stack = ty :: below ∧ below.length = s.frame.stack.length) ∧
    (∀ own low ty' u, s.frame.stack = own ++ low →
      value (fragment.code ctx pos) (s.withStack own) = .ok ty' u →
        t.frame.stack = u.frame.stack ++ low ∧ t.output = u.output) ∧
    ((∃ ty' u, value (fragment.code ctx pos) (s.withStack []) = .ok ty' u) ∨
        (∀ operand ∈ fragment :: operandsIn fragment, operand.isValueChain = true) →
      t.frame.stack = ty :: s.frame.stack) := by
  refine ⟨(value_eq_ok.mp run).2, ?_, ?_⟩
  · intro own low ty' u stack above
    exact (fragment.value_withStack reached pos own low stack run above).2
  · rintro (⟨ty', u, alone⟩ | chains)
    · obtain ⟨rfl, stack, -⟩ := fragment.value_withStack reached pos [] _ rfl run alone
      obtain ⟨-, rest, pushed, none⟩ := value_eq_ok.mp alone
      obtain rfl : rest = [] := List.length_eq_zero_iff.mp none
      rw [stack, pushed, List.singleton_append]
    · exact value_stack_of_chains reached pos chains run

namespace Sample

/-- The state with two strings on the stack. -/
def stringsState : State :=
  stateAfter
    (Fragment.code minimumContext [0] [.constant (.string "low"), .constant (.string "high")])
    { frame := { locals := ⟨#[some .int, some .int], #[some "a", some "b"]⟩ } }

/-- A fragment that discards an operand and makes up for it. -/
def discardAndReplace : Fragment := [.pop, .constant (.int 1), .constant (.int 2)]

theorem strings_value_frame :
    Reached minimumContext stringsState ∧ stringsState.frame.stack = [.string, .string] ∧
      (∃ ty t, value (Fragment.code minimumContext [1] (minimum.body.take 1)) stringsState =
          .ok ty t ∧ t.frame.stack = ty :: stringsState.frame.stack) ∧
      ∃ ty t low, value (Fragment.code minimumContext [1] discardAndReplace) stringsState =
          .ok ty t ∧ t.frame.stack = low ++ [.string] := by
  have reached : Reached minimumContext stringsState := .generate _ _ (.start rfl rfl rfl rfl)
  have stack : stringsState.frame.stack = [.string, .string] := by decide +kernel
  refine ⟨reached, stack, ?_, ?_⟩
  · obtain ⟨ty, t, run⟩ : ∃ ty t, value (Fragment.code minimumContext [1] (minimum.body.take 1))
        stringsState = .ok ty t := exists_ok_of_not_fails (by decide +kernel)
    exact ⟨ty, t, run,
      (Fragment.value_frame reached [1] _ run).2.2 (.inr (by decide +kernel))⟩
  · obtain ⟨ty, t, run⟩ : ∃ ty t, value (Fragment.code minimumContext [1] discardAndReplace)
        stringsState = .ok ty t := exists_ok_of_not_fails (by decide +kernel)
    obtain ⟨ty', u, above⟩ : ∃ ty u, value (Fragment.code minimumContext [1] discardAndReplace)
        (stringsState.withStack [.string]) = .ok ty u := exists_ok_of_not_fails (by decide +kernel)
    exact ⟨ty, t, u.frame.stack, run,
      ((Fragment.value_frame reached [1] _ run).2.1 [.string] [.string] ty' u stack above).1⟩

/-- The upper string is gone, although the fragment counts as one value. -/
theorem discardAndReplace_value :
    Reached minimumContext stringsState ∧ stringsState.frame.stack = [.string, .string] ∧
      ∃ ty t, value (Fragment.code minimumContext [1] discardAndReplace) stringsState =
        .ok ty t ∧ t.frame.stack = [.int, .int, .string] := by
  obtain ⟨ty, t, run⟩ : ∃ ty t, value (Fragment.code minimumContext [1] discardAndReplace)
      stringsState = .ok ty t := exists_ok_of_not_fails (by decide +kernel)
  refine ⟨.generate _ _ (.start rfl rfl rfl rfl), by decide +kernel, ty, t, run, ?_⟩
  rw [← stateAfter_of_ok run]
  decide +kernel

end Sample

end JvmAssembler
