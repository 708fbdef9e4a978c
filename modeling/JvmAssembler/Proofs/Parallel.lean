import Mathlib
import JvmAssembler.Proofs.Run

/-!
# Actions made of the same steps

The actions of operations, fragments and conditions are made of a few kinds of
steps: they change the frame, write instructions, hand out labels, jump to them
and place them, and probe operands.  `Parallel` says that two actions are made
of the same steps in the same order; they may differ in the numbers of labels,
in the positions at which they probe, and in errors that are taken as the same.

Labels are used with care.  A label that was handed out is pending until it is
placed, and an action leaves as many labels pending as it found.  A jump goes to
a pending label or back to a head, which is a label that was placed where the
position can be reached.

What holds of every run of the generator follows by induction on `Parallel`.
-/

namespace JvmAssembler

namespace Frame

variable {α β : Type}

/-- The result with other recorded shapes. -/
def withShapes (shapes : List (Label × List JType)) :
    EStateM.Result Error Frame α → EStateM.Result Error Frame α
  | .ok a f => .ok a { f with shapes }
  | .error e f => .error e { f with shapes }

/-- Frame operations that have nothing to do with recorded shapes, keep
reachability, do the same on top of further operands, and leave a table with as
many names as types where they find one. -/
structure Quiet (op : FrameOp α) : Prop where
  shapes : ∀ f shapes, op { f with shapes } = withShapes shapes (op f)
  alive : ∀ {f a g}, op f = .ok a g → g.alive = f.alive
  atop : ∀ {f a g} (low : List JType) (depth maxStack : UInt16), op f = .ok a g →
    ∃ depth' maxStack', op { f with stack := f.stack ++ low, depth, maxStack } =
      .ok a { g with stack := g.stack ++ low, depth := depth', maxStack := maxStack' }
  matched : ∀ f, f.locals.Matched → (FrameOp.leaves op f).locals.Matched

namespace Quiet

theorem shapes_eq {op : FrameOp α} (quiet : Quiet op) {f g : Frame} {a : α}
    (run : op f = .ok a g) : g.shapes = f.shapes := by
  have same := quiet.shapes f f.shapes
  rw [run] at same
  obtain ⟨-, same⟩ := EStateM.Result.ok.inj same
  rw [same]

theorem error_shapes_eq {op : FrameOp α} (quiet : Quiet op) {f g : Frame} {e : Error}
    (run : op f = .error e g) : g.shapes = f.shapes := by
  have same := quiet.shapes f f.shapes
  rw [run] at same
  obtain ⟨-, same⟩ := EStateM.Result.error.inj same
  rw [same]

theorem bind {op : FrameOp α} {next : α → FrameOp β} (first : Quiet op)
    (second : ∀ a, Quiet (next a)) : Quiet (op >>= next) where
  shapes := by
    intro f shapes
    have same := first.shapes f shapes
    cases ran : op f with
    | ok a g =>
        rw [ran] at same
        rw [bind_apply_of_ok same, bind_apply_of_ok ran, (second a).shapes]
    | error e g =>
        rw [ran] at same
        rw [bind_apply_of_error same, bind_apply_of_error ran]
        rfl
  alive := by
    intro f b g run
    obtain ⟨a, h, ran, rest⟩ := bind_eq_ok.mp run
    exact ((second a).alive rest).trans (first.alive ran)
  atop := by
    intro f b g low depth maxStack run
    obtain ⟨a, h, ran, rest⟩ := bind_eq_ok.mp run
    obtain ⟨depth', maxStack', lifted⟩ := first.atop low depth maxStack ran
    rw [bind_apply_of_ok lifted]
    exact (second a).atop low depth' maxStack' rest
  matched := by
    intro f matched
    have before := first.matched f matched
    cases ran : op f with
    | ok a g =>
        rw [FrameOp.leaves_of_ok ran] at before
        rw [FrameOp.leaves_bind_of_ok ran]
        exact (second a).matched g before
    | error e g =>
        rw [FrameOp.leaves_of_error ran] at before
        rwa [FrameOp.leaves_bind_of_error ran]

theorem push (ty : JType) : Quiet (push ty) := by
  constructor
  · intro f shapes
    unfold Frame.push
    split <;> rfl
  · intro f a g run
    obtain ⟨-, rfl⟩ := push_eq_ok.mp run
    rfl
  · intro f a g low depth maxStack run
    obtain ⟨value, rfl⟩ := push_eq_ok.mp run
    exact ⟨_, _, push_eq_ok.mpr ⟨value, rfl⟩⟩
  · intro f matched
    unfold FrameOp.leaves Frame.push
    cases ty.isVoid <;> exact matched

theorem pop : Quiet pop := by
  constructor
  · intro f shapes
    rcases f with ⟨_ | ⟨top, rest⟩⟩ <;> rfl
  · intro f a g run
    obtain ⟨rest, -, rfl⟩ := pop_eq_ok.mp run
    rfl
  · intro f a g low depth maxStack run
    rcases f with ⟨_ | ⟨top, rest⟩⟩ <;> cases run
    exact ⟨_, _, rfl⟩
  · intro f matched
    rcases f with ⟨_ | ⟨top, rest⟩⟩ <;> exact matched

theorem popN (n : Nat) : Quiet (popN n) := by
  constructor
  · intro f shapes
    simp only [Frame.popN]
    split <;> rfl
  · intro f a g run
    obtain ⟨-, -, rfl⟩ := popN_eq_ok.mp run
    rfl
  · intro f a g low depth maxStack run
    obtain ⟨enough, rfl, rfl⟩ := popN_eq_ok.mp run
    refine ⟨depth - JType.slotCount (f.stack.take n), maxStack, popN_eq_ok.mpr ⟨?_, ?_, ?_⟩⟩
    · simp only [List.length_append]
      omega
    · rw [List.take_append_of_le_length enough]
    · simp only [dropped, List.take_append_of_le_length enough, List.drop_append_of_le_length enough]
  · intro f matched
    by_cases missing : (f.stack.take n).length < n <;>
      simpa only [FrameOp.leaves, Frame.popN, missing, if_true, if_false] using matched

theorem peek : Quiet peek := by
  constructor
  · intro f shapes
    rcases f with ⟨_ | ⟨top, rest⟩⟩ <;> rfl
  · intro f a g run
    obtain ⟨-, rfl⟩ := peek_eq_ok.mp run
    rfl
  · intro f a g low depth maxStack run
    rcases f with ⟨_ | ⟨top, rest⟩⟩ <;> cases run
    exact ⟨_, _, rfl⟩
  · intro f matched
    rcases f with ⟨_ | ⟨top, rest⟩⟩ <;> exact matched

theorem replaceTop (ty : JType) : Quiet (replaceTop ty) :=
  pop.bind fun _ => push ty

theorem setLocal (slot : Slot) (ty : JType) : Quiet (setLocal slot ty) := by
  constructor
  · intro f shapes
    unfold Frame.setLocal
    split <;> rfl
  · intro f a g run
    obtain ⟨-, rfl⟩ := setLocal_eq_ok.mp run
    rfl
  · intro f a g low depth maxStack run
    obtain ⟨storable, rfl⟩ := setLocal_eq_ok.mp run
    exact ⟨_, _, setLocal_eq_ok.mpr ⟨storable, rfl⟩⟩
  · intro f matched
    unfold FrameOp.leaves Frame.setLocal
    by_cases unfit : ty = .void ∨ ty = .null
    · simpa [unfit] using matched
    · simpa [unfit, writeSlots] using matched.written slot.toNat ty

theorem addLocal (name : Option String) (ty : JType) : Quiet (addLocal name ty) := by
  constructor
  · intro f shapes
    simp only [Frame.addLocal]
    split
    · rfl
    · split <;> rfl
  · intro f a g run
    obtain ⟨-, -, -, rfl⟩ := addLocal_eq_ok.mp run
    rfl
  · intro f a g low depth maxStack run
    obtain ⟨few, storable, rfl, rfl⟩ := addLocal_eq_ok.mp run
    exact ⟨_, _, addLocal_eq_ok.mpr ⟨few, storable, rfl, rfl⟩⟩
  · intro f matched
    unfold FrameOp.leaves Frame.addLocal
    by_cases many : 65535 < f.locals.size
    · simpa [many] using matched
    by_cases unfit : ty = .void ∨ ty = .null
    · simpa [many, unfit] using matched
    · simpa [many, unfit, writeSlots] using
        (matched.written f.locals.size ty).renamed f.locals.size name

theorem resolveIndex (name : String) : Quiet (resolveIndex name) := by
  constructor
  · intro f shapes
    unfold Frame.resolveIndex
    dsimp only
    split <;> rfl
  · intro f a g run
    obtain ⟨rfl, -⟩ := resolveIndex_eq_ok.mp run
    rfl
  · intro f a g low depth maxStack run
    obtain ⟨rfl, found⟩ := resolveIndex_eq_ok.mp run
    exact ⟨_, _, resolveIndex_eq_ok.mpr ⟨rfl, found⟩⟩
  · intro f matched
    unfold FrameOp.leaves Frame.resolveIndex
    cases indexIn? f.locals name <;> exact matched

theorem localType (slot : Slot) : Quiet (localType slot) := by
  constructor
  · intro f shapes
    unfold Frame.localType slotType?
    dsimp only
    split <;> rfl
  · intro f a g run
    obtain ⟨-, rfl⟩ := localType_eq_ok.mp run
    rfl
  · intro f a g low depth maxStack run
    obtain ⟨typed, rfl⟩ := localType_eq_ok.mp run
    exact ⟨_, _, localType_eq_ok.mpr ⟨typed, rfl⟩⟩
  · intro f matched
    unfold FrameOp.leaves Frame.localType
    cases f.slotType? slot.toNat <;> exact matched

theorem beginScope : Quiet beginScope := by
  constructor
  · intro f shapes
    rfl
  · intro f a g run
    cases run
    rfl
  · intro f a g low depth maxStack run
    cases run
    exact ⟨_, _, rfl⟩
  · exact fun _ matched => matched

theorem endScope : Quiet endScope := by
  constructor
  · intro f shapes
    unfold Frame.endScope
    dsimp only
    split <;> rfl
  · intro f a g run
    obtain ⟨start, rest, -, rfl⟩ := endScope_eq_ok.mp run
    rfl
  · intro f a g low depth maxStack run
    obtain ⟨start, rest, opened, rfl⟩ := endScope_eq_ok.mp run
    exact ⟨_, _, endScope_eq_ok.mpr ⟨start, rest, opened, rfl⟩⟩
  · intro f matched
    unfold FrameOp.leaves Frame.endScope
    cases f.scopes with
    | nil => exact matched
    | cons start rest => exact matched.take start

/-- Looking at anything but operands and what is recorded for labels. -/
theorem read {look : Frame → α}
    (blind : ∀ f stack depth maxStack shapes,
      look { f with stack, depth, maxStack, shapes } = look f) :
    Quiet fun f => .ok (look f) f := by
  constructor
  · intro f shapes
    simpa [withShapes] using blind f f.stack f.depth f.maxStack shapes
  · intro f a g run
    cases run
    rfl
  · intro f a g low depth maxStack run
    cases run
    refine ⟨depth, maxStack, ?_⟩
    simpa using blind f (f.stack ++ low) depth maxStack f.shapes
  · exact fun _ matched => matched

end Quiet

end Frame

/-- Jumps and labels, and the opcode of a jump without its target. -/
def Instr.isMark : Instr → Bool
  | .jump .. | .label _ => true
  | .op code => code == .goto
  | _ => false

theorem Instr.isMark_of_isPlain {instr : Instr} (plain : instr.isPlain = true) :
    instr.isMark = false := by
  cases instr with
  | op code =>
      have continues : code.isTerminal = false := by simpa [isPlain] using plain
      simp only [isMark, beq_eq_false_iff_ne]
      rintro rfl
      contradiction
  | jump code target | label position => contradiction
  | _ => rfl

/-- Which positions and errors of two actions correspond. -/
structure Pairing where
  positions : Position → Position → Prop
  positions_inj : ∀ {p p' q q'}, positions p p' → positions q q' → (p = q ↔ p' = q')
  errors : Error → Error → Prop
  errors_refl : ∀ e, errors e e

namespace Gen

/-- Two actions made of the same steps, where `pending` and `heads` are the
labels to which they may jump and `after` are those left pending.  If `live` is
set, the position is known to be reachable at their start. -/
inductive Parallel (ctx : Context) (pairing : Pairing) :
    (live : Bool) → (heads pending : List (Label × Label)) → {α : Type} → Gen α → Gen α →
      (after : List (Label × Label)) → Prop where
  | pure {live : Bool} {heads pending : List (Label × Label)} {α : Type} (a : α) :
      Parallel ctx pairing live heads pending (pure a : Gen α) (pure a) pending
  | throw {live : Bool} {heads pending : List (Label × Label)} {α : Type} {e e' : Error} :
      pairing.errors e e' →
      Parallel ctx pairing live heads pending (throw e : Gen α) (throw e') pending
  | bind {live : Bool} {heads pending middle after : List (Label × Label)} {α β : Type}
      {x x' : Gen α} {f f' : α → Gen β} :
      Parallel ctx pairing live heads pending x x' middle →
      (∀ a, Parallel ctx pairing false heads middle (f a) (f' a) after) →
      Parallel ctx pairing live heads pending (x >>= f) (x' >>= f') after
  | onFrame {live : Bool} {heads pending : List (Label × Label)} {α : Type} {op : FrameOp α} :
      Frame.Quiet op →
      Parallel ctx pairing live heads pending (onFrame op) (onFrame op) pending
  | emit {live : Bool} {heads pending : List (Label × Label)} {instr : Instr} :
      instr.isMark = false →
      Parallel ctx pairing live heads pending (emit ctx instr) (emit ctx instr) pending
  | newLabel {live : Bool} {heads pending after : List (Label × Label)} {α : Type}
      {f f' : Label → Gen α} :
      (∀ label label',
        Parallel ctx pairing live heads ((label, label') :: pending) (f label) (f' label') after) →
      Parallel ctx pairing live heads pending (newLabel >>= f) (newLabel >>= f') after
  | jump {live : Bool} {heads pending : List (Label × Label)} {label label' : Label}
      (code : Opcode) : (label, label') ∈ heads ++ pending →
      Parallel ctx pairing live heads pending (jump ctx code label) (jump ctx code label') pending
  | place {live : Bool} {heads pending after : List (Label × Label)} {label label' : Label} :
      pending.Perm ((label, label') :: after) →
      Parallel ctx pairing live heads pending (place ctx label) (place ctx label') after
  | head {heads pending after after' : List (Label × Label)} {label label' : Label} {α : Type}
      {f f' : Unit → Gen α} :
      pending.Perm ((label, label') :: after) →
      Parallel ctx pairing false ((label, label') :: heads) after (f ()) (f' ()) after' →
      Parallel ctx pairing true heads pending (place ctx label >>= f) (place ctx label' >>= f')
        after'
  | value {live : Bool} {heads pending after : List (Label × Label)} {x x' : Gen Unit} :
      Parallel ctx pairing live heads pending x x' after →
      Parallel ctx pairing live heads pending (value x) (value x') after
  | operation {live : Bool} {heads pending : List (Label × Label)} {x x' : Gen Unit}
      (name : String) :
      Parallel ctx pairing true heads pending x x' pending →
      Parallel ctx pairing live heads pending (operation name x) (operation name x') pending
  | probe {live : Bool} {heads pending : List (Label × Label)} {operand operand' : Operand} :
      pairing.positions operand.position operand'.position →
      Parallel ctx pairing false [] [] operand.code operand'.code [] →
      Parallel ctx pairing live heads pending (probe ctx operand) (probe ctx operand') pending

namespace Parallel

variable {α : Type} {ctx : Context} {pairing : Pairing} {live : Bool}
variable {heads pending after : List (Label × Label)}

theorem ite {condition : Prop} [Decidable condition] {x x' y y' : Gen α}
    (first : Parallel ctx pairing live heads pending x x' after)
    (second : Parallel ctx pairing live heads pending y y' after) :
    Parallel ctx pairing live heads pending (if condition then x else y)
      (if condition then x' else y') after := by
  split
  · exact first
  · exact second

/-- Actions that go on only if a check does not fail. -/
theorem check_of {condition : Prop} [Decidable condition] {e e' : Error}
    {next next' : Unit → Gen α} (same : pairing.errors e e')
    (parallel : ∀ live, Parallel ctx pairing live heads pending (next ()) (next' ()) after) :
    Parallel ctx pairing live heads pending
      (if condition then (MonadExcept.throw e : Gen Unit) >>= next else next ())
      (if condition then (MonadExcept.throw e' : Gen Unit) >>= next' else next' ()) after :=
  ite (.bind (.throw same) fun _ => parallel false) (parallel live)

theorem check {condition : Prop} [Decidable condition] {e : Error} {next next' : Unit → Gen α}
    (parallel : ∀ live, Parallel ctx pairing live heads pending (next ()) (next' ()) after) :
    Parallel ctx pairing live heads pending
      (if condition then (MonadExcept.throw e : Gen Unit) >>= next else next ())
      (if condition then (MonadExcept.throw e : Gen Unit) >>= next' else next' ()) after :=
  check_of (pairing.errors_refl e) parallel

theorem isAlive : Parallel ctx pairing live heads pending isAlive isAlive pending :=
  .onFrame (.read fun _ _ _ _ _ => rfl : Frame.Quiet fun f => .ok f.alive f)

theorem whenAlive {x x' : Gen Unit} (parallel : Parallel ctx pairing false heads pending x x' pending) :
    Parallel ctx pairing live heads pending (whenAlive x) (whenAlive x') pending :=
  .bind isAlive fun _ => ite parallel (.pure ())

end Parallel

/-- Actions made of the same steps that leave pending what was pending. -/
def Alike (ctx : Context) (pairing : Pairing) {α : Type} (x x' : Gen α) : Prop :=
  ∀ live heads pending, Parallel ctx pairing live heads pending x x' pending

namespace Alike

variable {α β : Type} {ctx : Context} {pairing : Pairing}

/-! ## Sequences and choices -/

theorem pure (a : α) : Alike ctx pairing (pure a : Gen α) (pure a) :=
  fun _ _ _ => .pure a

theorem throw (e : Error) : Alike ctx pairing (throw e : Gen α) (throw e) :=
  fun _ _ _ => .throw (pairing.errors_refl e)

theorem bind {x x' : Gen α} {f f' : α → Gen β} (first : Alike ctx pairing x x')
    (second : ∀ a, Alike ctx pairing (f a) (f' a)) : Alike ctx pairing (x >>= f) (x' >>= f') :=
  fun live heads pending =>
    .bind (first live heads pending) fun a => second a false heads pending

theorem ite {condition : Prop} [Decidable condition] {x x' y y' : Gen α}
    (first : Alike ctx pairing x x') (second : Alike ctx pairing y y') :
    Alike ctx pairing (if condition then x else y) (if condition then x' else y') := by
  split
  · exact first
  · exact second

/-- Actions that go on only if a check does not fail. -/
theorem check {condition : Prop} [Decidable condition] {e : Error} {next next' : Unit → Gen α}
    (alike : Alike ctx pairing (next ()) (next' ())) :
    Alike ctx pairing
      (if condition then (MonadExcept.throw e : Gen Unit) >>= next else next ())
      (if condition then (MonadExcept.throw e : Gen Unit) >>= next' else next' ()) :=
  fun _ _ _ => .check fun live => alike live _ _

/-! ## Primitive actions -/

theorem onFrame {op : FrameOp α} (quiet : Frame.Quiet op) :
    Alike ctx pairing (onFrame op) (onFrame op) :=
  fun _ _ _ => .onFrame quiet

theorem push (ty : JType) : Alike ctx pairing (push ty) (push ty) :=
  onFrame (.push ty)

theorem pop : Alike ctx pairing pop pop :=
  onFrame .pop

theorem popN (n : Nat) : Alike ctx pairing (popN n) (popN n) :=
  onFrame (.popN n)

theorem peek : Alike ctx pairing peek peek :=
  onFrame .peek

theorem emit {instr : Instr} (noMark : instr.isMark = false) :
    Alike ctx pairing (emit ctx instr) (emit ctx instr) :=
  fun _ _ _ => .emit noMark

theorem emitOp {code : Opcode} (noGoto : code ≠ .goto) :
    Alike ctx pairing (emitOp ctx code) (emitOp ctx code) :=
  emit (by simpa [Instr.isMark] using noGoto)

theorem emitAll {code : List Instr} (noMarks : ∀ instr ∈ code, instr.isMark = false) :
    Alike ctx pairing (emitAll ctx code) (emitAll ctx code) := by
  induction code with
  | nil => exact pure ()
  | cons instr rest ih =>
      exact bind (emit (noMarks instr (by simp))) fun _ =>
        ih fun other mem => noMarks other (by simp [mem])

theorem value {x x' : Gen Unit} (alike : Alike ctx pairing x x') :
    Alike ctx pairing (value x) (value x') :=
  fun live heads pending => .value (alike live heads pending)

theorem inScope {x x' : Gen Unit} (alike : Alike ctx pairing x x') :
    Alike ctx pairing (inScope x) (inScope x') :=
  bind (onFrame .beginScope) fun _ => bind alike fun _ => onFrame .endScope

end Alike

end Gen

end JvmAssembler
