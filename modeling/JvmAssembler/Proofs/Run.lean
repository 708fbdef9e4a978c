import Mathlib
import JvmAssembler.Generate.Body
import JvmAssembler.Proofs.ConversionCode
import JvmAssembler.Proofs.FrameOperations

/-!
# Successful runs of generator actions

A successful run of a sequence splits into successful runs of its parts, and
every primitive action says exactly which state it leaves.  Actions that write
straight-line code are summarised by `Emits`: which instructions they write and
which operands they leave, with everything else that later generation reads
unchanged.
-/

namespace JvmAssembler

namespace Frame

/-! ## Depth -/

/-- Operands that take at most `limit` slots, and so do the lower ones of them, as far as
16 bits tell. -/
structure Fits (limit : Nat) (stack : List JType) : Prop where
  values : ∀ ty ∈ stack, ty.isVoid = false
  count_le : ∀ low, low <:+ stack → (JType.slotCount low).toNat ≤ limit

theorem Fits.mono {limit limit' : Nat} {stack : List JType} (fits : Fits limit stack)
    (more : limit ≤ limit') : Fits limit' stack :=
  ⟨fits.values, fun low isLow => (fits.count_le low isLow).trans more⟩

theorem Fits.of_suffix {limit : Nat} {stack low : List JType} (fits : Fits limit stack)
    (isLow : low <:+ stack) : Fits limit low where
  values ty mem := fits.values ty (isLow.subset mem)
  count_le lower isLower := fits.count_le lower (isLower.trans isLow)

theorem Fits.cons {limit : Nat} {ty : JType} {stack : List JType} (fits : Fits limit stack)
    (value : ty.isVoid = false) (count : (JType.slotCount (ty :: stack)).toNat ≤ limit) :
    Fits limit (ty :: stack) where
  values := List.forall_mem_cons.mpr ⟨value, fits.values⟩
  count_le low isLow := by
    rcases List.suffix_cons_iff.mp isLow with rfl | isLow
    · exact count
    · exact fits.count_le low isLow

/-- The depth is that of the operands, and neither they nor a recorded shape
exceed the greatest depth. -/
structure Sized (f : Frame) : Prop where
  depth_eq : f.depth = JType.slotCount f.stack
  stack_fits : Fits f.maxStack.toNat f.stack
  shapes_fit : ∀ label shape, f.shapes.lookup label = some shape → Fits f.maxStack.toNat shape

/-- The greatest depth does not shrink and stays a bound. -/
structure Grows (f g : Frame) : Prop where
  maxStack_le : f.maxStack.toNat ≤ g.maxStack.toNat
  sized : f.Sized → g.Sized

theorem Sized.initial : Sized {} := by
  refine ⟨rfl, ⟨by simp, fun low isLow => ?_⟩, by simp⟩
  rw [List.suffix_nil.mp isLow]
  exact le_rfl

theorem Sized.depth_le {f : Frame} (sized : f.Sized) : f.depth.toNat ≤ f.maxStack.toNat := by
  rw [sized.depth_eq]
  exact sized.stack_fits.count_le _ List.suffix_rfl

namespace Grows

variable {f g h : Frame}

theorem of_same (stack : g.stack = f.stack) (depth : g.depth = f.depth)
    (maxStack : g.maxStack = f.maxStack) (shapes : g.shapes = f.shapes) : Grows f g where
  maxStack_le := by rw [maxStack]
  sized := by
    intro sized
    constructor
    · rw [depth, stack, sized.depth_eq]
    · rw [maxStack, stack]
      exact sized.stack_fits
    · rw [maxStack, shapes]
      exact sized.shapes_fit

theorem refl (f : Frame) : Grows f f :=
  of_same rfl rfl rfl rfl

theorem trans (first : Grows f g) (second : Grows g h) : Grows f h :=
  ⟨first.maxStack_le.trans second.maxStack_le, second.sized ∘ first.sized⟩

theorem of_push {ty : JType} (run : push ty f = .ok () g) : Grows f g := by
  obtain ⟨value, rfl⟩ := push_eq_ok.mp run
  have more : f.maxStack.toNat ≤ (f.pushed ty).maxStack.toNat :=
    maxStack_pushed f ty ▸ le_max_left _ _
  refine ⟨more, fun sized => ?_⟩
  have depth : (f.pushed ty).depth = JType.slotCount (ty :: f.stack) := by
    rw [JType.slotCount_cons, ← sized.depth_eq]
    exact UInt16.add_comm _ _
  refine ⟨depth, (sized.stack_fits.mono more).cons value ?_,
    fun label shape found => (sized.shapes_fit label shape found).mono more⟩
  rw [← depth, maxStack_pushed]
  exact le_max_right _ _

theorem of_popN {n : Nat} {types : List JType} (run : popN n f = .ok types g) : Grows f g := by
  obtain ⟨-, -, rfl⟩ := popN_eq_ok.mp run
  refine ⟨le_rfl, fun sized => ⟨?_, sized.stack_fits.of_suffix (List.drop_suffix n f.stack),
    sized.shapes_fit⟩⟩
  have split := JType.slotCount_append (f.stack.take n) (f.stack.drop n)
  rw [List.take_append_drop, ← sized.depth_eq] at split
  simp only [dropped, split]
  exact add_sub_cancel_left _ _

theorem of_pop {ty : JType} (run : pop f = .ok ty g) : Grows f g := by
  obtain ⟨rest, stackEq, rfl⟩ := pop_eq_ok.mp run
  refine ⟨le_rfl, fun sized => ?_⟩
  have fits := sized.stack_fits
  have depth := sized.depth_eq
  rw [stackEq] at fits depth
  refine ⟨?_, fits.of_suffix (List.suffix_cons ty rest), sized.shapes_fit⟩
  rw [depth, JType.slotCount_cons]
  exact add_sub_cancel_left _ _

theorem of_replaceTop {ty : JType} (run : replaceTop ty f = .ok () g) : Grows f g := by
  obtain ⟨top, middle, popped, pushed⟩ := bind_eq_ok.mp run
  exact (of_pop popped).trans (of_push pushed)

/-- Recording the present operands for a label. -/
theorem of_records {label : Label} (stack : g.stack = f.stack) (depth : g.depth = f.depth)
    (maxStack : g.maxStack = f.maxStack) (records : Records f g label f.stack) : Grows f g where
  maxStack_le := by rw [maxStack]
  sized := by
    intro sized
    constructor
    · rw [depth, stack, sized.depth_eq]
    · rw [maxStack, stack]
      exact sized.stack_fits
    · intro other shape found
      rw [maxStack]
      rw [records.lookup_eq] at found
      split at found
      · cases found
        exact sized.stack_fits
      · exact sized.shapes_fit other shape found

/-- Going on with the operands recorded for a label. -/
theorem of_recorded {label : Label} {shape : List JType}
    (recorded : f.shapes.lookup label = some shape) :
    Grows f { f with stack := shape, depth := JType.slotCount shape, alive := true } where
  maxStack_le := le_rfl
  sized := fun sized => ⟨rfl, sized.shapes_fit label shape recorded, sized.shapes_fit⟩

end Grows

end Frame

namespace Gen

variable {α β : Type} {s t u : State} {e : Error}

/-! ## Looking at the state -/

theorem get_eq_ok {b : State} : (get : Gen State) s = .ok b t ↔ s = b ∧ s = t := by
  change EStateM.Result.ok s s = .ok b t ↔ _
  simp

theorem isAlive_eq_ok {b : Bool} : isAlive s = .ok b t ↔ s.frame.alive = b ∧ s = t := by
  simp [isAlive]

/-- An action that is skipped where the position cannot be reached. -/
theorem whenAlive_eq_ok {action : Gen Unit} :
    whenAlive action s = .ok () t ↔
      (s.frame.alive = true ∧ action s = .ok () t) ∨ (s.frame.alive = false ∧ s = t) := by
  simp only [whenAlive, bind_eq_ok, isAlive_eq_ok]
  cases s.frame.alive <;> simp [pure_eq_ok]

theorem onFrame_eq_ok {op : FrameOp α} {a : α} :
    onFrame op s = .ok a t ↔ ∃ frame, op s.frame = .ok a frame ∧ t = { s with frame } := by
  cases result : op s.frame with
  | ok b frame => simp [onFrame, result, eq_comm]
  | error e frame => simp [onFrame, result]

/-! ## Straight-line code -/

/-- The state `t` comes from `s` by writing `code` and leaving `stack` on the
simulated operand stack; all else that generation reads is as before. -/
structure Emits (s t : State) (code : List Instr) (stack : List JType) : Prop where
  stack_eq : t.frame.stack = stack
  locals_eq : t.frame.locals = s.frame.locals
  scopes_eq : t.frame.scopes = s.frame.scopes
  alive_eq : t.frame.alive = s.frame.alive
  shapes_eq : t.frame.shapes = s.frame.shapes
  instrs_eq : t.output.instrs.toList = s.output.instrs.toList ++ code
  nextLabel_eq : t.output.nextLabel = s.output.nextLabel
  probed_eq : t.probed = s.probed
  depth_eq : t.depth = s.depth
  grows : s.frame.Grows t.frame

theorem Emits.refl (s : State) : Emits s s [] s.frame.stack := by
  constructor <;> simp [Frame.Grows.refl]

theorem Emits.trans {first second : List Instr} {middle stack : List JType}
    (left : Emits s t first middle) (right : Emits t u second stack) :
    Emits s u (first ++ second) stack where
  stack_eq := right.stack_eq
  locals_eq := right.locals_eq.trans left.locals_eq
  scopes_eq := right.scopes_eq.trans left.scopes_eq
  alive_eq := right.alive_eq.trans left.alive_eq
  shapes_eq := right.shapes_eq.trans left.shapes_eq
  instrs_eq := by rw [right.instrs_eq, left.instrs_eq, List.append_assoc]
  nextLabel_eq := right.nextLabel_eq.trans left.nextLabel_eq
  probed_eq := right.probed_eq.trans left.probed_eq
  depth_eq := right.depth_eq.trans left.depth_eq
  grows := left.grows.trans right.grows

/-- Nothing is written by operations on operands. -/
theorem Emits.of_operands {stack : List JType} {depth maxStack : UInt16}
    (grows : s.frame.Grows { s.frame with stack, depth, maxStack }) :
    Emits s { s with frame := { s.frame with stack, depth, maxStack } } [] stack := by
  constructor <;> simp [grows]

theorem push_emits {ty : JType} (run : push ty s = .ok () t) :
    Emits s t [] (ty :: s.frame.stack) ∧ ty.isVoid = false := by
  obtain ⟨frame, pushed, rfl⟩ := onFrame_eq_ok.mp run
  have grows := Frame.Grows.of_push pushed
  obtain ⟨value, rfl⟩ := Frame.push_eq_ok.mp pushed
  exact ⟨.of_operands grows, value⟩

theorem pop_emits {ty : JType} (run : pop s = .ok ty t) :
    ∃ rest, s.frame.stack = ty :: rest ∧ Emits s t [] rest := by
  obtain ⟨frame, popped, rfl⟩ := onFrame_eq_ok.mp run
  have grows := Frame.Grows.of_pop popped
  obtain ⟨rest, stackEq, rfl⟩ := Frame.pop_eq_ok.mp popped
  exact ⟨rest, stackEq, .of_operands grows⟩

theorem popN_emits {n : Nat} {types : List JType} (run : popN n s = .ok types t) :
    n ≤ s.frame.stack.length ∧ Emits s t [] (s.frame.stack.drop n) := by
  obtain ⟨frame, popped, rfl⟩ := onFrame_eq_ok.mp run
  have grows := Frame.Grows.of_popN popped
  obtain ⟨enough, -, rfl⟩ := Frame.popN_eq_ok.mp popped
  exact ⟨enough, .of_operands grows⟩

theorem peek_eq_ok {ty : JType} :
    peek s = .ok ty t ↔ (∃ rest, s.frame.stack = ty :: rest) ∧ s = t := by
  simp only [peek, onFrame_eq_ok, Frame.peek_eq_ok]
  constructor
  · rintro ⟨_, ⟨shown, rfl⟩, rfl⟩
    exact ⟨shown, rfl⟩
  · rintro ⟨shown, rfl⟩
    exact ⟨s.frame, ⟨shown, rfl⟩, rfl⟩

theorem write_emits {ctx : Context} {instr : Instr} (run : write ctx instr s = .ok () t) :
    Emits s t [instr] s.frame.stack := by
  cases run
  constructor <;> simp [Output.push, Frame.Grows.refl]

theorem emit_emits {ctx : Context} {instr : Instr} (plain : instr.isPlain = true)
    (run : emit ctx instr s = .ok () t) : Emits s t [instr] s.frame.stack := by
  obtain ⟨_, middle, wrote, rest⟩ := bind_eq_ok.mp run
  have unchanged : middle = t := by
    cases instr with
    | op code =>
        have continues : code.isTerminal = false := by simpa [Instr.isPlain] using plain
        simp only [continues] at rest
        exact (pure_eq_ok.mp rest).2
    | _ => exact (pure_eq_ok.mp rest).2
  exact unchanged ▸ write_emits wrote

theorem emitAll_emits {ctx : Context} {code : List Instr}
    (plain : ∀ instr ∈ code, instr.isPlain = true) (run : emitAll ctx code s = .ok () t) :
    Emits s t code s.frame.stack := by
  induction code generalizing s with
  | nil =>
      obtain ⟨_, rfl⟩ := pure_eq_ok.mp run
      exact Emits.refl s
  | cons instr rest ih =>
      obtain ⟨_, middle, first, others⟩ := bind_eq_ok.mp run
      have wrote := emit_emits (plain instr (by simp)) first
      have wroteOthers := ih (fun other mem => plain other (by simp [mem])) others
      rw [wrote.stack_eq] at wroteOthers
      exact wrote.trans wroteOthers

/-! ## Conversions -/

theorem replaceTop_emits {source target : JType} {rest : List JType}
    (stackEq : s.frame.stack = source :: rest)
    (run : onFrame (Frame.replaceTop target) s = .ok () t) :
    Emits s t [] (target :: rest) := by
  obtain ⟨frame, replaced, rfl⟩ := onFrame_eq_ok.mp run
  have grows := Frame.Grows.of_replaceTop replaced
  obtain ⟨top, below, found, -, rfl⟩ := Frame.replaceTop_eq_ok.mp replaced
  obtain ⟨rfl, rfl⟩ := List.cons.inj (stackEq.symm.trans found)
  exact .of_operands grows

theorem convertTop_emits {source target : JType} {rest : List JType}
    (stackEq : s.frame.stack = source :: rest)
    (run : convertTop ctx source target (conversion ctx source target) s = .ok () t) :
    Emits s t ((conversion ctx source target).instrs source target) (target :: rest) := by
  rw [convertTop_conversion] at run
  split at run
  · rename_i same
    obtain ⟨_, rfl⟩ := pure_eq_ok.mp run
    rw [same, ← Conversion.eq_of_classify_eq_identity same, ← stackEq]
    exact Emits.refl s
  · split at run
    · exact (throw_eq_ok.mp run).elim
    · obtain ⟨_, middle, wrote, replaced⟩ := bind_eq_ok.mp run
      have written := emitAll_emits (Conversion.instrs_plain _ source target) wrote
      have replacing := replaceTop_emits (written.stack_eq.trans stackEq) replaced
      simpa using written.trans replacing

/-- An implicit conversion of the top writes the conversion's instructions and
gives the top its target type. -/
theorem coerceTop_emits {target : JType} (run : coerceTop ctx target s = .ok () t) :
    ∃ source rest, s.frame.stack = source :: rest ∧
      (conversion ctx source target).isImplicit = true ∧
      Emits s t ((conversion ctx source target).instrs source target) (target :: rest) := by
  obtain ⟨source, _, peeked, converts⟩ := bind_eq_ok.mp run
  obtain ⟨⟨rest, stackEq⟩, rfl⟩ := peek_eq_ok.mp peeked
  split at converts
  · rename_i allowed
    exact ⟨source, rest, stackEq, allowed, convertTop_emits stackEq converts⟩
  · exact (throw_eq_ok.mp converts).elim

/-- A cast of the top writes the conversion's instructions and gives the top
its target type. -/
theorem castTop_emits {target : JType} (run : castTop ctx target s = .ok () t) :
    ∃ source rest, s.frame.stack = source :: rest ∧
      conversion ctx source target ≠ .illegal ∧
      Emits s t ((conversion ctx source target).instrs source target) (target :: rest) := by
  rw [castTop_eq] at run
  obtain ⟨source, _, peeked, converts⟩ := bind_eq_ok.mp run
  obtain ⟨⟨rest, stackEq⟩, rfl⟩ := peek_eq_ok.mp peeked
  have legal : conversion ctx source target ≠ .illegal := by
    intro illegal
    rw [illegal] at converts
    exact throw_eq_ok.mp converts
  exact ⟨source, rest, stackEq, legal, convertTop_emits stackEq converts⟩

/-! ## Labels -/

theorem newLabel_eq_ok {label : Label} :
    newLabel s = .ok label t ↔
      label = ⟨s.output.nextLabel⟩ ∧
        t = { s with output := { s.output with nextLabel := s.output.nextLabel + 1 } } := by
  simp only [newLabel, Output.newLabel, EStateM.Result.ok.injEq]
  constructor
  · rintro ⟨rfl, rfl⟩
    exact ⟨rfl, rfl⟩
  · rintro ⟨rfl, rfl⟩
    exact ⟨rfl, rfl⟩

/-- The state `t` comes from `s` by writing a jump or a label.  What becomes of
the operands, the recorded shapes and reachability is said separately. -/
structure Marks (s t : State) (instr : Instr) : Prop where
  locals_eq : t.frame.locals = s.frame.locals
  scopes_eq : t.frame.scopes = s.frame.scopes
  instrs_eq : t.output.instrs.toList = s.output.instrs.toList ++ [instr]
  nextLabel_eq : t.output.nextLabel = s.output.nextLabel
  probed_eq : t.probed = s.probed
  depth_eq : t.depth = s.depth
  grows : s.frame.Grows t.frame

/-- An instruction that is written after a change of the frame in which the local
variables stay. -/
theorem Emits.marks {frame : Frame} {instr : Instr} {stack : List JType}
    (written : Emits { s with frame } t [instr] stack) (locals : frame.locals = s.frame.locals)
    (scopes : frame.scopes = s.frame.scopes) (grows : s.frame.Grows frame) : Marks s t instr where
  locals_eq := written.locals_eq.trans locals
  scopes_eq := written.scopes_eq.trans scopes
  instrs_eq := written.instrs_eq
  nextLabel_eq := written.nextLabel_eq
  probed_eq := written.probed_eq
  depth_eq := written.depth_eq
  grows := grows.trans written.grows

theorem Marks.withAlive {instr : Instr} (marks : Marks s t instr) (alive : Bool) :
    Marks s { t with frame := { t.frame with alive } } instr :=
  { marks with grows := marks.grows.trans (.of_same rfl rfl rfl rfl) }

/-- A jump records the present operands for its target; only an unconditional
one ends the reachable code. -/
theorem jump_marks {code : Opcode} {target : Label} (run : jump ctx code target s = .ok () t) :
    Marks s t (.jump code target) ∧ t.frame.stack = s.frame.stack ∧
      t.frame.alive = (s.frame.alive && code != .goto) ∧
      s.frame.Records t.frame target s.frame.stack := by
  obtain ⟨_, recorded, merges, others⟩ := bind_eq_ok.mp run
  obtain ⟨_, wrote, writes, ends⟩ := bind_eq_ok.mp others
  obtain ⟨frame, merged, rfl⟩ := onFrame_eq_ok.mp merges
  obtain ⟨records, shapes, rfl⟩ := Frame.merge_eq_ok merged
  have written := write_emits writes
  have ended : t = { wrote with
      frame := { wrote.frame with alive := wrote.frame.alive && code != .goto } } := by
    by_cases isGoto : code = .goto
    · simp only [isGoto, if_true] at ends
      obtain ⟨_, marked, rfl⟩ := onFrame_eq_ok.mp ends
      cases marked
      simp [isGoto]
    · simp only [isGoto, if_false] at ends
      obtain ⟨_, rfl⟩ := pure_eq_ok.mp ends
      have differs : (code != .goto) = true := by simpa using isGoto
      rw [differs, Bool.and_true]
  subst ended
  have marks : Marks s wrote (.jump code target) :=
    written.marks rfl rfl (.of_records rfl rfl rfl records)
  refine ⟨marks.withAlive _, written.stack_eq, ?_, records.agrees, ?_⟩
  · rw [written.alive_eq]
  · simpa [written.shapes_eq] using records.lookup_eq

/-- Entering a label from a position that can be reached records its operands. -/
theorem place_marks_of_alive {label : Label} (alive : s.frame.alive = true)
    (run : place ctx label s = .ok () t) :
    Marks s t (.label label) ∧ t.frame.stack = s.frame.stack ∧ t.frame.alive = true ∧
      s.frame.Records t.frame label s.frame.stack := by
  obtain ⟨_, entered, enters, writes⟩ := bind_eq_ok.mp run
  obtain ⟨frame, placed, rfl⟩ := onFrame_eq_ok.mp enters
  rw [Frame.place_of_alive alive] at placed
  obtain ⟨records, shapes, rfl⟩ := Frame.merge_eq_ok placed
  have written := write_emits writes
  refine ⟨written.marks rfl rfl (.of_records rfl rfl rfl records), written.stack_eq,
    written.alive_eq.trans alive, records.agrees, ?_⟩
  simpa [written.shapes_eq] using records.lookup_eq

/-- Entering a label from a position that cannot be reached continues with the
recorded shape, if there is one. -/
theorem place_marks_of_dead {label : Label} (dead : s.frame.alive = false)
    (run : place ctx label s = .ok () t) :
    Marks s t (.label label) ∧ t.frame.shapes = s.frame.shapes ∧
      t.frame.alive = (s.frame.shapes.lookup label).isSome ∧
      t.frame.stack = (s.frame.shapes.lookup label).getD s.frame.stack := by
  obtain ⟨_, entered, enters, writes⟩ := bind_eq_ok.mp run
  obtain ⟨frame, placed, rfl⟩ := onFrame_eq_ok.mp enters
  have written := write_emits writes
  rcases Frame.place_eq_ok.mp placed with ⟨alive, -⟩ | ⟨-, unknown, rfl⟩ | ⟨-, shape, known, rfl⟩
  · rw [dead] at alive
    contradiction
  · rw [unknown]
    exact ⟨written.marks rfl rfl (.refl _), written.shapes_eq, written.alive_eq.trans dead,
      written.stack_eq⟩
  · rw [known]
    exact ⟨written.marks rfl rfl (.of_recorded known), written.shapes_eq, written.alive_eq,
      written.stack_eq⟩

/-- An instruction after which control cannot continue. -/
theorem emit_ends {code : Opcode} (terminal : code.isTerminal = true)
    (run : emitOp ctx code s = .ok () t) :
    Marks s t (.op code) ∧ t.frame.shapes = s.frame.shapes ∧ t.frame.alive = false := by
  obtain ⟨_, wrote, writes, ends⟩ := bind_eq_ok.mp run
  have written := write_emits writes
  simp only [terminal, if_true] at ends
  obtain ⟨frame, marked, rfl⟩ := onFrame_eq_ok.mp ends
  cases marked
  have marks : Marks s wrote (.op code) := written.marks rfl rfl (.refl _)
  exact ⟨marks.withAlive false, written.shapes_eq, rfl⟩

/-! ## Fragments and operations -/

/-- A value fragment succeeds exactly if its code does and leaves one more
operand. -/
theorem value_eq_ok {code : Gen Unit} {ty : JType} :
    value code s = .ok ty t ↔
      code s = .ok () t ∧
        ∃ rest, t.frame.stack = ty :: rest ∧ rest.length = s.frame.stack.length := by
  simp only [value, bind_eq_ok, get_eq_ok]
  constructor
  · rintro ⟨_, _, ⟨rfl, rfl⟩, _, _, generated, _, _, ⟨rfl, rfl⟩, checked⟩
    split at checked
    · obtain ⟨_, _, thrown, _⟩ := bind_eq_ok.mp checked
      exact (throw_eq_ok.mp thrown).elim
    · rename_i counted
      obtain ⟨⟨rest, stackEq⟩, rfl⟩ := peek_eq_ok.mp checked
      refine ⟨generated, rest, stackEq, ?_⟩
      simp only [Frame.size, stackEq, List.length_cons] at counted
      omega
  · rintro ⟨generated, rest, stackEq, counted⟩
    refine ⟨s, s, ⟨rfl, rfl⟩, (), t, generated, t, t, ⟨rfl, rfl⟩, ?_⟩
    have one : ¬ ((t.frame.size : Int) - (s.frame.size : Int) ≠ 1) := by
      simp only [Frame.size, stackEq, List.length_cons]
      omega
    rw [if_neg one]
    exact peek_eq_ok.mpr ⟨⟨rest, stackEq⟩, rfl⟩

/-- What an operation does: it runs one level deeper, from a position that can be
reached. -/
theorem operation_apply (name : String) (body : Gen Unit) (s : State) :
    operation name body s =
      if s.frame.alive then
        match body { s with depth := s.depth + 1 } with
        | .ok () t => .ok () (t.leave s.depth)
        | .error e t => .error e (t.leave s.depth)
      else
        .error (.invalidInput (.unreachable name))
          (State.leave { s with depth := s.depth + 1 } s.depth) := by
  unfold operation nested
  cases alive : s.frame.alive with
  | false =>
      simp [bind, EStateM.bind, isAlive, alive, throw, throwThe, MonadExceptOf.throw, EStateM.throw]
  | true =>
      cases result : body { s with depth := s.depth + 1 } <;>
        simp [bind, EStateM.bind, isAlive, alive, result]

theorem operation_eq_ok {name : String} {body : Gen Unit} :
    operation name body s = .ok () t ↔
      s.frame.alive = true ∧
        ∃ u, body { s with depth := s.depth + 1 } = .ok () u ∧ t = u.leave s.depth := by
  rw [operation_apply]
  cases alive : s.frame.alive with
  | false => simp
  | true => cases body { s with depth := s.depth + 1 } <;> simp [eq_comm]

end Gen

/-- The state in which a scope begins. -/
def State.entered (s : State) : State :=
  { s with frame := { s.frame with scopes := s.frame.locals.size :: s.frame.scopes } }

/-- The state after a scope that began with `start` local slots. -/
def State.left (s : State) (start : Nat) (scopes : List Nat) : State :=
  { s with frame := { s.frame with scopes, locals := s.frame.locals.take start } }

namespace Gen

variable {s t : State} {ctx : Context}

/-- A fragment in a scope of its own: the slots it adds are dropped. -/
theorem inScope_eq_ok {code : Gen Unit} :
    inScope code s = .ok () t ↔
      ∃ u start rest, code s.entered = .ok () u ∧ u.frame.scopes = start :: rest ∧
        t = u.left start rest := by
  simp only [inScope, bind_eq_ok, onFrame_eq_ok, Frame.beginScope, Frame.endScope_eq_ok,
    EStateM.Result.ok.injEq]
  constructor
  · rintro ⟨_, _, ⟨_, ⟨_, rfl⟩, rfl⟩, _, u, generated, _, ⟨start, rest, opened, rfl⟩, rfl⟩
    exact ⟨u, start, rest, generated, opened, rfl⟩
  · rintro ⟨u, start, rest, generated, opened, rfl⟩
    exact ⟨(), _, ⟨_, ⟨trivial, rfl⟩, rfl⟩, (), u, generated, _, ⟨start, rest, opened, rfl⟩, rfl⟩

/-- A probe leaves frame and output alone.  It answers from the memory, or by a
dry run whose type the memory may keep. -/
theorem probe_ok {operand : Operand} {ty : JType} (run : probe ctx operand s = .ok ty t) :
    t.frame = s.frame ∧ t.output = s.output ∧ t.depth = s.depth ∧
      ((s.probed[operand.position]? = some ty ∧ t.probed = s.probed) ∨
        ∃ dry, value operand.code s.dryRun = .ok ty dry ∧
          (t.probed = ∅ ∨ t.probed = s.probed ∨
            t.probed = dry.probed.insert operand.position ty)) := by
  cases mode : ctx.probing with
  | remembered =>
      simp only [probe, mode, probeRemembered] at run
      split at run
      · rename_i known found
        cases run
        exact ⟨rfl, rfl, rfl, .inl ⟨found, rfl⟩⟩
      · split at run
        · rename_i dry dryRun
          cases run
          refine ⟨rfl, rfl, rfl, .inr ⟨dry, dryRun, ?_⟩⟩
          by_cases outermost : s.depth = 0
          · exact .inl (by simp [State.afterProbe, outermost])
          · exact .inr (.inr (by simp [State.afterProbe, outermost]))
        · contradiction
  | fresh =>
      simp only [probe, mode, probeFresh] at run
      split at run
      · rename_i dry dryRun
        cases run
        exact ⟨rfl, rfl, rfl, .inr ⟨dry, dryRun, .inr (.inl rfl)⟩⟩
      · contradiction

end Gen

end JvmAssembler
