import Mathlib
import JvmAssembler.Proofs.Simulation
import JvmAssembler.Proofs.StackShift

/-!
# Runs with and without a memory of probed types

Inside one outermost operation the type of an operand is remembered after its
first dry run, and the answer is given again later, on another stack and after
the dry runs of other operands.

A memory is honest where a dry run would still give the remembered types.  For a
dry run of a value chain depends on the local variables only, and an operation
does not change these before it has generated its operands.  An action that is
made of steps, with operands that are value chains, keeps an honest memory
honest and does what it does without memory.
-/

namespace JvmAssembler

/-- Two states that show the same; they may differ in what is remembered and
logged. -/
structure State.Matches (s s' : State) : Prop where
  frame : s'.frame = s.frame
  output : s'.output = s.output

theorem State.Matches.dryRun {s s' : State} (same : s.Matches s') : s.dryRun.Matches s'.dryRun :=
  ⟨by simp [State.dryRun, same.frame], rfl⟩

namespace Gen

variable {α β : Type} {pre mid post : State → Prop} {ctx : Context}

theorem whenAlive_apply (x : Gen Unit) (s : State) :
    whenAlive x s = if s.frame.alive then x s else .ok () s := by
  change EStateM.bind isAlive (fun alive => if alive then x else pure ()) s = _
  simp only [EStateM.bind, isAlive]
  split <;> rfl

/-- From matching states, of which the first is as required, both actions give
the same result and leave matching states; where they succeed, the first one
leaves a state as promised. -/
def Tracks (pre post : State → Prop) (x x' : Gen α) : Prop :=
  ∀ ⦃s s'⦄, s.Matches s' → pre s →
    Agrees Eq State.Matches (x s) (x' s') ∧ ∀ a t, x s = .ok a t → post t

namespace Tracks

theorem mono {pre' post' : State → Prop} {x x' : Gen α} (tracks : Tracks pre post x x')
    (stronger : ∀ s, pre' s → pre s) (weaker : ∀ s, post s → post' s) :
    Tracks pre' post' x x' := by
  intro s s' same holds
  obtain ⟨agrees, after⟩ := tracks same (stronger s holds)
  exact ⟨agrees, fun a t run => weaker t (after a t run)⟩

theorem pure (a : α) : Tracks pre pre (pure a : Gen α) (pure a) := by
  intro s s' same holds
  refine ⟨.ok same, fun b t run => ?_⟩
  obtain ⟨-, rfl⟩ := pure_eq_ok.mp run
  exact holds

theorem throw (e : Error) : Tracks pre post (throw e : Gen α) (throw e) :=
  fun _ _ same _ => ⟨.error rfl same, fun _ _ run => (throw_eq_ok.mp run).elim⟩

theorem seq {x x' : Gen α} {f f' : α → Gen β} (first : Tracks pre mid x x')
    (second : ∀ a, Returns x a → Tracks mid post (f a) (f' a)) :
    Tracks pre post (x >>= f) (x' >>= f') := by
  intro s s' same holds
  obtain ⟨agrees, between⟩ := first same holds
  constructor
  · refine agrees.bind fun a t t' ran _ same' => ?_
    exact (second a ⟨s, t, ran⟩ same' (between a t ran)).1
  · intro b t run
    obtain ⟨a, u, ran, rest⟩ := bind_eq_ok.mp run
    obtain ⟨u', -, same'⟩ := agrees.exists_ok ran
    exact (second a ⟨s, u, ran⟩ same' (between a u ran)).2 b t rest

theorem bind {x x' : Gen α} {f f' : α → Gen β} (first : Tracks pre mid x x')
    (second : ∀ a, Tracks mid post (f a) (f' a)) : Tracks pre post (x >>= f) (x' >>= f') :=
  seq first fun a _ => second a

theorem whenAlive {x x' : Gen Unit}
    (tracks : Tracks (fun s => pre s ∧ s.frame.alive = true) post x x')
    (otherwise : ∀ s, pre s → post s) : Tracks pre post (whenAlive x) (whenAlive x') := by
  intro s s' same holds
  rw [whenAlive_apply, whenAlive_apply, same.frame]
  cases alive : s.frame.alive with
  | true => exact tracks same ⟨holds, alive⟩
  | false =>
      refine ⟨.ok same, fun a t run => ?_⟩
      cases run
      exact otherwise s holds

theorem onFrame {op : FrameOp α}
    (keeps : ∀ s a frame, pre s → op s.frame = .ok a frame → post { s with frame }) :
    Tracks pre post (onFrame op) (onFrame op) := by
  intro s s' same holds
  constructor
  · obtain ⟨frame, output, probed, depth, log⟩ := s
    obtain ⟨frame', output', probed', depth', log'⟩ := s'
    obtain ⟨rfl, rfl⟩ := same
    simp only [Gen.onFrame]
    cases op frame' with
    | ok a frame => exact .ok ⟨rfl, rfl⟩
    | error e frame => exact .error rfl ⟨rfl, rfl⟩
  · intro a t run
    obtain ⟨frame, ran, rfl⟩ := onFrame_eq_ok.mp run
    exact keeps s a frame holds ran

theorem inScope {inside after : State → Prop} {x x' : Gen Unit}
    (begins : ∀ s, pre s → inside s.entered) (tracks : Tracks inside after x x')
    (ends : ∀ s start rest, after s → s.frame.scopes = start :: rest → post (s.left start rest)) :
    Tracks pre post (inScope x) (inScope x') := by
  have opens : Tracks pre inside (Gen.onFrame Frame.beginScope) (Gen.onFrame Frame.beginScope) := by
    refine .onFrame fun s a frame holds run => ?_
    cases run
    exact begins s holds
  refine opens.bind fun _ => tracks.bind fun _ => .onFrame fun s a frame holds run => ?_
  obtain ⟨start, rest, opened, rfl⟩ := Frame.endScope_eq_ok.mp run
  exact ends s start rest holds opened

theorem operation {inside after : State → Prop} {x x' : Gen Unit} (name : String)
    (enters : ∀ s, pre s → s.frame.alive = true → inside { s with depth := s.depth + 1 })
    (tracks : Tracks inside after x x') (leaves : ∀ s depth, after s → post (s.leave depth)) :
    Tracks pre post (operation name x) (operation name x') := by
  intro s s' same holds
  have entered : State.Matches { s with depth := s.depth + 1 } { s' with depth := s'.depth + 1 } :=
    ⟨same.frame, same.output⟩
  have left {t t' : State} (same' : t.Matches t') : (t.leave s.depth).Matches (t'.leave s'.depth) :=
    ⟨same'.frame, same'.output⟩
  have aliveEq : s'.frame.alive = s.frame.alive := by rw [same.frame]
  constructor
  · rw [operation_apply, operation_apply, aliveEq]
    cases alive : s.frame.alive with
    | false => exact .error rfl (left entered)
    | true =>
        have inner := (tracks entered (enters s holds alive)).1
        simp only [if_true]
        generalize x { s with depth := s.depth + 1 } = result at inner
        generalize x' { s' with depth := s'.depth + 1 } = result' at inner
        cases inner with
        | ok after => exact .ok (left after)
        | error equal after => exact .error equal (left after)
  · intro a t run
    obtain ⟨alive, u, ran, rfl⟩ := operation_eq_ok.mp run
    exact leaves u s.depth ((tracks entered (enters s holds alive)).2 () u ran)

theorem value {x x' : Gen Unit} (tracks : Tracks pre post x x') :
    Tracks pre post (value x) (value x') := by
  intro s s' same holds
  obtain ⟨agrees, after⟩ := tracks same holds
  constructor
  · refine agrees.value (fun _ => rfl) (fun _ _ same' => by rw [same'.frame]) (by rw [same.frame])
      fun t t' same' => ?_
    have peeks : Tracks (fun _ => True) (fun _ => True) Gen.peek Gen.peek :=
      .onFrame fun _ _ _ _ _ => trivial
    exact (peeks same' trivial).1
  · intro ty t run
    exact after () t (value_eq_ok.mp run).1

/-- What follows may look at what the two states share. -/
theorem get {f f' : State → Gen β}
    (next : ∀ s s', s.Matches s' → Tracks pre post (f s) (f' s')) :
    Tracks pre post (get >>= f) (get >>= f') :=
  fun s s' same holds => next s s' same same holds

theorem check {condition : Prop} [Decidable condition] {e : Error} {next next' : Unit → Gen α}
    (tracks : Tracks pre post (next ()) (next' ())) :
    Tracks pre post (if condition then (MonadExcept.throw e : Gen Unit) >>= next else next ())
      (if condition then (MonadExcept.throw e : Gen Unit) >>= next' else next' ()) := by
  split
  · rw [throw_bind, throw_bind]
    exact .throw e
  · exact tracks

theorem optional {condition : Prop} [Decidable condition] {x x' : Gen Unit}
    {next next' : Unit → Gen α} (first : Tracks pre pre x x')
    (rest : Tracks pre post (next ()) (next' ())) :
    Tracks pre post (if condition then x >>= next else next ())
      (if condition then x' >>= next' else next' ()) := by
  split
  · exact first.bind fun _ => rest
  · exact rest

theorem reached {x x' : Gen α} (tracks : Tracks pre post x x') (keeps : KeepsAlive x) :
    Tracks (fun s => pre s ∧ s.frame.alive = true) (fun s => post s ∧ s.frame.alive = true)
      x x' := by
  intro s s' same ⟨holds, alive⟩
  obtain ⟨agrees, after⟩ := tracks same holds
  exact ⟨agrees, fun a t run => ⟨after a t run, keeps run alive⟩⟩

end Tracks

/-- A property of the variables, the scopes and the memory. -/
def Steady (inv : State → Prop) : Prop :=
  ∀ ⦃s t : State⦄, inv s → t.frame.locals = s.frame.locals → t.frame.scopes = s.frame.scopes →
    t.probed = s.probed → inv t

namespace Steady

variable {inv : State → Prop} (steady : Steady inv)

include steady

theorem onFrame {op : FrameOp α} (noLocals : Frame.Local op) :
    Tracks inv inv (onFrame op) (onFrame op) :=
  .onFrame fun _ _ _ holds run => steady holds (noLocals.locals run) (noLocals.scopes run) rfl

theorem write (instr : Instr) : Tracks inv inv (write ctx instr) (write ctx.anew instr) := by
  intro s s' same holds
  refine ⟨.ok ⟨same.frame, by simp [same.output]⟩, fun a t run => ?_⟩
  cases run
  exact steady holds rfl rfl rfl

theorem emit (instr : Instr) : Tracks inv inv (emit ctx instr) (emit ctx.anew instr) := by
  refine (steady.write instr).bind fun _ => ?_
  cases instr with
  | op code =>
      dsimp only
      split
      · exact steady.onFrame .markDead
      · exact .pure ()
  | _ => exact .pure ()

theorem newLabel : Tracks inv inv newLabel newLabel := by
  intro s s' same holds
  refine ⟨?_, fun a t run => ?_⟩
  · unfold Gen.newLabel
    rw [same.output]
    exact .ok ⟨same.frame, rfl⟩
  · obtain ⟨-, rfl⟩ := newLabel_eq_ok.mp run
    exact steady holds rfl rfl rfl

theorem jump (code : Opcode) (target : Label) :
    Tracks inv inv (jump ctx code target) (jump ctx.anew code target) := by
  refine (steady.onFrame (.jumpTo target)).bind fun _ => (steady.write _).bind fun _ => ?_
  split
  · exact steady.onFrame .markDead
  · exact .pure ()

theorem place (label : Label) : Tracks inv inv (place ctx label) (place ctx.anew label) :=
  (steady.onFrame (.place label)).bind fun _ => steady.write _

theorem slotOf (ref : LocalRef) : Tracks inv inv (slotOf ref) (slotOf ref) := by
  cases ref with
  | named name => exact steady.onFrame (.resolveIndex name)
  | slot index => exact .pure index

theorem loadSlot (slot : Slot) (ty : JType) :
    Tracks inv inv (loadSlot ctx slot ty) (loadSlot ctx.anew slot ty) :=
  (steady.emit _).bind fun _ => steady.onFrame (.push ty)

theorem storeSlot (slot : Slot) :
    Tracks inv inv (storeSlot ctx slot) (storeSlot ctx.anew slot) :=
  (steady.onFrame .pop).bind fun _ => steady.emit _

theorem load (ref : LocalRef) : Tracks inv inv (load ctx ref) (load ctx.anew ref) :=
  (steady.slotOf ref).bind fun slot => (steady.onFrame (.localType slot)).bind fun ty =>
    steady.loadSlot slot ty

theorem storeTarget (ref : LocalRef) :
    Tracks inv inv (storeTarget ref) (storeTarget ref) := by
  cases ref with
  | named name =>
      exact (steady.onFrame (.resolveIndex name)).bind fun slot =>
        (steady.onFrame (.localType slot)).bind fun _ => .pure _
  | slot index =>
      exact steady.onFrame (.read fun f => (index, f.slotType? index.toNat))

end Steady

/-! ## Honest memory -/

/-- Wherever control can be and these variables are known, a dry run of the
fragment gives this type. -/
def Answers (locals : LocalTable) (code : Gen Unit) (ty : JType) : Prop :=
  ∀ s : State, s.frame.alive = true → s.frame.locals = locals →
    ∃ t, value code s.dryRun = .ok ty t

/-- One dry run of a value chain tells what all give. -/
theorem LiftsValue.answers {code : Gen Unit} {s t : State} {ty : JType} (lifts : LiftsValue code)
    (alive : s.frame.alive = true) (run : value code s.dryRun = .ok ty t) :
    Answers s.frame.locals code ty :=
  fun _ alive' locals => Lifts.value_dryRun lifts locals (alive'.trans alive.symm) run

/-- The fragments that stand at positions. -/
abbrev CodeAt := Position → Gen Unit → Prop

/-- The variables and scopes are these, with as many names as types, and what is
remembered for fragments is honest. -/
structure Sound (codes : CodeAt) (locals : LocalTable) (scopes : List Nat) (s : State) :
    Prop where
  locals_eq : s.frame.locals = locals
  matched : locals.Matched
  scopes_eq : s.frame.scopes = scopes
  honest : ∀ p ty code, s.probed[p]? = some ty → codes p code → Answers locals code ty

variable {codes : CodeAt} {locals : LocalTable} {scopes : List Nat} {live : Bool}

theorem Sound.steady : Steady (Sound codes locals scopes) :=
  fun _ _ sound sameLocals sameScopes sameMemory =>
    ⟨sameLocals.trans sound.locals_eq, sound.matched, sameScopes.trans sound.scopes_eq,
      sameMemory ▸ sound.honest⟩

/-- The first action, with an honest memory, does what the second one does; it
leaves variables and scopes alone and the memory honest. -/
def Follows (codes : CodeAt) (locals : LocalTable) (live : Bool) (x x' : Gen α) : Prop :=
  ∀ scopes, Tracks
    (fun s => Sound codes locals scopes s ∧ (live = true → s.frame.alive = true))
    (Sound codes locals scopes) x x'

namespace Follows

/-- An action that needs not know whether control can be there. -/
theorem of_tracks {x x' : Gen α}
    (tracks : ∀ scopes, Tracks (Sound codes locals scopes) (Sound codes locals scopes) x x') :
    Follows codes locals live x x' :=
  fun scopes => (tracks scopes).mono (fun _ holds => holds.1) fun _ => id

theorem tracks {x x' : Gen α} (follows : Follows codes locals false x x') :
    Tracks (Sound codes locals scopes) (Sound codes locals scopes) x x' :=
  (follows scopes).mono (fun _ sound => ⟨sound, by simp⟩) fun _ => id

theorem anywhere {x x' : Gen α} (follows : Follows codes locals false x x') :
    Follows codes locals live x x' :=
  of_tracks fun _ => follows.tracks

theorem pure (a : α) : Follows codes locals live (pure a : Gen α) (pure a) :=
  of_tracks fun _ => .pure a

theorem throw (e : Error) : Follows codes locals live (throw e : Gen α) (throw e) :=
  fun _ => .throw e

theorem seq {next : Bool} {x x' : Gen α} {f f' : α → Gen β}
    (first : Follows codes locals live x x') (keeps : next = true → live = true ∧ KeepsAlive x)
    (second : ∀ a, Returns x a → Follows codes locals next (f a) (f' a)) :
    Follows codes locals live (x >>= f) (x' >>= f') := by
  intro scopes
  have between : Tracks
      (fun s => Sound codes locals scopes s ∧ (live = true → s.frame.alive = true))
      (fun s => Sound codes locals scopes s ∧ (next = true → s.frame.alive = true)) x x' := by
    intro s s' same ⟨sound, alive⟩
    obtain ⟨agrees, after⟩ := first scopes same ⟨sound, alive⟩
    refine ⟨agrees, fun a t run => ⟨after a t run, fun isNext => ?_⟩⟩
    obtain ⟨isLive, keeps⟩ := keeps isNext
    exact keeps run (alive isLive)
  exact between.seq fun a returns => second a returns scopes

theorem whenAlive {x x' : Gen Unit} (follows : Follows codes locals true x x') :
    Follows codes locals live (whenAlive x) (whenAlive x') :=
  of_tracks fun scopes => Tracks.whenAlive
    ((follows scopes).mono (fun _ holds => ⟨holds.1, fun _ => holds.2⟩) fun _ => id) fun _ => id

theorem value {x x' : Gen Unit} (follows : Follows codes locals live x x') :
    Follows codes locals live (value x) (value x') :=
  fun scopes => (follows scopes).value

theorem inScope {x x' : Gen Unit} (follows : Follows codes locals live x x') :
    Follows codes locals live (inScope x) (inScope x') := by
  refine fun scopes => .inScope
    (fun s ⟨sound, alive⟩ => ⟨⟨sound.locals_eq, sound.matched, ?_, sound.honest⟩, alive⟩)
    (follows (locals.size :: scopes)) fun s start rest sound opened => ?_
  · obtain ⟨rfl, rfl⟩ := List.cons.inj (opened.symm.trans sound.scopes_eq)
    exact ⟨by simp [State.left, sound.locals_eq, sound.matched.take_size], sound.matched, rfl,
      sound.honest⟩
  · simp [State.entered, sound.locals_eq, sound.scopes_eq]

theorem operation {x x' : Gen Unit} (name : String) (follows : Follows codes locals true x x') :
    Follows codes locals live (operation name x) (operation name x') := by
  refine fun scopes => .operation name
    (fun s ⟨sound, _⟩ alive => ⟨Sound.steady sound rfl rfl rfl, fun _ => alive⟩) (follows scopes)
    fun s depth sound =>
      ⟨sound.locals_eq, sound.matched, sound.scopes_eq, fun p ty code found => ?_⟩
  simp only [State.leave] at found
  split at found
  · simp at found
  · exact sound.honest p ty code found

/-- An answer from the memory is what a dry run gives, and the answer of a dry
run may be remembered. -/
theorem probe {operand operand' : Operand} (mode : ctx.probing = .remembered)
    (unique : ∀ p code code', codes p code → codes p code' → code = code')
    (here : codes operand.position operand'.code)
    (follows : Follows codes locals false operand.code operand'.code)
    (lifts : LiftsValue operand'.code) :
    Follows codes locals true (probe ctx operand) (probe ctx.anew operand') := by
  rintro scopes s s' same ⟨sound, isAlive⟩
  have locals' : s'.frame.locals = locals := by rw [same.frame, sound.locals_eq]
  have alive' : s'.frame.alive = true := by rw [same.frame, isAlive rfl]
  have remembers : Gen.probe ctx operand s = probeRemembered operand s := by
    simp only [Gen.probe, mode]
  have runsDry : Gen.probe ctx.anew operand' s' = probeFresh operand' s' := rfl
  rw [remembers, runsDry]
  unfold probeRemembered probeFresh
  cases found : s.probed[operand.position]? with
  | some ty =>
      obtain ⟨dry, ran⟩ := sound.honest _ ty _ found here s' alive' locals'
      simp only [ran]
      refine ⟨.ok ⟨same.frame, same.output⟩, fun a t run => ?_⟩
      cases run
      exact sound
  | none =>
      obtain ⟨agrees, after⟩ :=
        follows.value scopes same.dryRun ⟨Sound.steady sound rfl rfl rfl, by simp⟩
      cases ran : Gen.value operand.code s.dryRun with
      | ok ty dry =>
          obtain ⟨dry', ran', -⟩ := agrees.exists_ok ran
          simp only [ran']
          refine ⟨.ok ⟨same.frame, same.output⟩, fun a t run => ?_⟩
          cases run
          refine ⟨sound.locals_eq, sound.matched, sound.scopes_eq,
            fun p ty' code recorded isCode => ?_⟩
          simp only [State.afterProbe] at recorded
          split at recorded
          · simp at recorded
          · rw [Std.TreeMap.getElem?_insert] at recorded
            split at recorded
            · rename_i samePosition
              obtain rfl := Option.some.inj recorded
              obtain rfl : operand.position = p := by simpa using samePosition
              obtain rfl := unique _ _ _ here isCode
              exact locals' ▸ lifts.answers alive' ran'
            · exact (after ty dry ran).honest p ty' code recorded isCode
      | error e dry =>
          obtain ⟨_, dry', ran', rfl, -⟩ := agrees.exists_error ran
          simp only [ran']
          exact ⟨.error rfl ⟨same.frame, same.output⟩, fun a t run => by cases run⟩

end Follows

/-- Actions whose operands stand where the memory has them. -/
def remembering (codes : CodeAt) (locals : LocalTable) : Plan where
  part live _ x x' := Follows codes locals live x x'
  operand operand operand' :=
    codes operand.position operand'.code ∧
      Follows codes locals false operand.code operand'.code ∧ LiftsValue operand'.code
  may
    | .writes | .touches => False
    | _ => True

theorem Follows.of_made {x x' : Gen α} (mode : ctx.probing = .remembered)
    (unique : ∀ p code code', codes p code → codes p code' → code = code')
    (made : Made ctx ctx.anew (remembering codes locals) live x x') :
    Follows codes locals live x x' := by
  induction made with
  | pure a => exact .pure a
  | throw e => exact .throw e
  | seq _ keeps _ first second => exact first.seq keeps second
  | whenAlive _ follows => exact .whenAlive follows
  | onFrame _ noLocals => exact .of_tracks fun _ => Sound.steady.onFrame noLocals
  | emit _ _ | receiver _ | finish _ _ _ => exact .of_tracks fun _ => Sound.steady.emit _
  | newLabel => exact .of_tracks fun _ => Sound.steady.newLabel
  | jump target _ => exact .of_tracks fun _ => Sound.steady.jump _ target
  | place label _ => exact .of_tracks fun _ => Sound.steady.place label
  | part follows => exact follows.anywhere
  | reached follows => exact follows
  | value follows => exact .value follows.anywhere
  | inScope _ follows => exact .inScope follows
  | operation name follows => exact .operation name follows
  | probe fits => exact .probe mode unique fits.1 fits.2.1 fits.2.2
  | load ref _ => exact .of_tracks fun _ => Sound.steady.load ref
  | onLocals touches _ | emitVar _ _ touches => exact touches.elim
  | store _ writes _ _ _ | declare _ _ writes _ | declareUninit _ _ writes
  | increment _ _ writes _ => exact writes.elim

end Gen

end JvmAssembler
