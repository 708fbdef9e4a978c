import Mathlib
import JvmAssembler.Proofs.StackSoundness

/-!
# Control flow of assembled methods is closed

The generator follows reachability by a flag and by the labels for which it has
recorded shapes.  Both err on the safe side: every jump records its target, and
where the flag is not set, control cannot come through the instructions written
so far, even if every recorded label is entered.  Main statement: in an
assembled method every jump has its label, no label stands twice, and control
never runs past the last instruction.
-/

namespace JvmAssembler

/-! ## Control through a list of instructions -/

/-- Whether control leaves an instruction for the next one, where `live` tells
whether it comes from above and `entered` which labels are jumped to. -/
def Instr.leaves (entered : Label → Bool) (live : Bool) : Instr → Bool
  | .label position => live || entered position
  | instr => live && instr.continues

/-- Whether control comes through instructions from the first one on. -/
def comesThrough (entered : Label → Bool) (code : List Instr) : Bool :=
  code.foldl (Instr.leaves entered) true

section

variable {entered entered' : Label → Bool} {code : List Instr} {instr : Instr}

theorem Instr.leaves_of_not_isMark (noMark : instr.isMark = false) (live : Bool) :
    instr.leaves entered live = (live && instr.continues) := by
  cases instr with
  | label position => contradiction
  | _ => rfl

@[simp]
theorem comesThrough_append (code : List Instr) (instr : Instr) :
    comesThrough entered (code ++ [instr]) = instr.leaves entered (comesThrough entered code) := by
  simp [comesThrough]

/-- Only labels that are placed matter. -/
theorem comesThrough_congr (agree : ∀ label ∈ placed code, entered label = entered' label) :
    comesThrough entered code = comesThrough entered' code := by
  unfold comesThrough
  induction code using List.reverseRecOn with
  | nil => rfl
  | append_singleton code instr ih =>
      rw [List.foldl_append, List.foldl_append, ih fun label mem => agree label (by simp [mem])]
      cases instr with
      | label position => simp [Instr.leaves, agree position (by simp)]
      | _ => rfl

end

/-! ## The invariant -/

/-- Whether a shape is recorded for a label. -/
def State.recorded (s : State) (label : Label) : Bool :=
  (s.shape? label).isSome

/-- What holds of the labels and the flow of the instructions written so far,
where `pending` are the labels still to be placed and `heads` are placed labels
to which later jumps go back. -/
structure State.Closed (heads pending : List Label) (s : State) : Prop where
  jumps : ∀ code target, .jump code target ∈ s.code →
    s.recorded target = true ∧ (target ∈ pending ∨ target ∈ placed s.code)
  no_goto : .op .goto ∉ s.code
  placed_nodup : (placed s.code).Nodup
  placed_below : ∀ label ∈ placed s.code, label.id < s.output.nextLabel
  pending_nodup : pending.Nodup
  pending_below : ∀ label ∈ pending, label.id < s.output.nextLabel
  pending_unplaced : ∀ label ∈ pending, label ∉ placed s.code
  heads_placed : ∀ label ∈ heads, label ∈ placed s.code
  heads_recorded : ∀ label ∈ heads, s.recorded label = true
  alive : comesThrough s.recorded s.code = true → s.frame.alive = true

namespace State.Closed

variable {heads pending : List Label} {s t : State} {label : Label}

theorem start (log : Array LogLine) : State.Closed [] [] { log } := by
  constructor <;> simp [State.code]

/-- The invariant is about output, shapes and reachability. -/
theorem congr (closed : s.Closed heads pending) (output : t.output = s.output)
    (shapes : t.frame.shapes = s.frame.shapes) (alive : t.frame.alive = s.frame.alive) :
    t.Closed heads pending := by
  have code : t.code = s.code := by simp [State.code, output]
  have recorded : t.recorded = s.recorded := by
    funext label
    simp [State.recorded, State.shape?, shapes]
  constructor
  · simpa [code, recorded] using closed.jumps
  · simpa [code] using closed.no_goto
  · simpa [code] using closed.placed_nodup
  · simpa [code, output] using closed.placed_below
  · exact closed.pending_nodup
  · simpa [output] using closed.pending_below
  · simpa [code] using closed.pending_unplaced
  · simpa [code] using closed.heads_placed
  · simpa [recorded] using closed.heads_recorded
  · simpa [code, recorded, alive] using closed.alive

theorem perm {pending' : List Label} (closed : s.Closed heads pending)
    (same : pending.Perm pending') : s.Closed heads pending' where
  jumps := fun code target mem => (closed.jumps code target mem).imp_right
    (Or.imp_left same.mem_iff.mp)
  no_goto := closed.no_goto
  placed_nodup := closed.placed_nodup
  placed_below := closed.placed_below
  pending_nodup := same.nodup closed.pending_nodup
  pending_below := fun label mem => closed.pending_below label (same.mem_iff.mpr mem)
  pending_unplaced := fun label mem => closed.pending_unplaced label (same.mem_iff.mpr mem)
  heads_placed := closed.heads_placed
  heads_recorded := closed.heads_recorded
  alive := closed.alive

theorem newLabel (closed : s.Closed heads pending) (run : Gen.newLabel s = .ok label t) :
    t.Closed heads (label :: pending) := by
  obtain ⟨rfl, rfl⟩ := Gen.newLabel_eq_ok.mp run
  constructor
  · intro code target mem
    exact (closed.jumps code target mem).imp_right (Or.imp_left (List.mem_cons_of_mem _))
  · exact closed.no_goto
  · exact closed.placed_nodup
  · exact fun label mem => Nat.lt_succ_of_lt (closed.placed_below label mem)
  · refine List.nodup_cons.mpr ⟨fun mem => ?_, closed.pending_nodup⟩
    exact absurd (closed.pending_below _ mem) (Nat.lt_irrefl _)
  · rintro label (_ | ⟨_, mem⟩)
    · exact Nat.lt_succ_self _
    · exact Nat.lt_succ_of_lt (closed.pending_below label mem)
  · rintro label (_ | ⟨_, mem⟩) found
    · exact absurd (closed.placed_below _ found) (Nat.lt_irrefl _)
    · exact closed.pending_unplaced label mem found
  · exact closed.heads_placed
  · exact closed.heads_recorded
  · exact closed.alive

/-- An instruction that is neither jump nor label. -/
theorem write {instr : Instr} (closed : s.Closed heads pending) (noMark : instr.isMark = false)
    (code : t.code = s.code ++ [instr]) (nextLabel : t.output.nextLabel = s.output.nextLabel)
    (shapes : t.frame.shapes = s.frame.shapes)
    (alive : t.frame.alive = (s.frame.alive && instr.continues)) : t.Closed heads pending := by
  have recorded : t.recorded = s.recorded := by
    funext label
    simp [State.recorded, State.shape?, shapes]
  have placedEq : placed t.code = placed s.code := by
    have noLabel : placed [instr] = [] := placed_singleton_of_ne fun label same => by
      simp [same, Instr.isMark] at noMark
    simp [code, noLabel]
  constructor
  · intro op target mem
    rw [code] at mem
    rw [recorded, placedEq]
    rcases List.mem_append.mp mem with old | new
    · exact closed.jumps op target old
    · obtain rfl := List.mem_singleton.mp new
      contradiction
  · rw [code, List.mem_append, List.mem_singleton]
    rintro (old | rfl)
    · exact closed.no_goto old
    · contradiction
  · simpa [placedEq] using closed.placed_nodup
  · simpa [placedEq, nextLabel] using closed.placed_below
  · exact closed.pending_nodup
  · simpa [nextLabel] using closed.pending_below
  · simpa [placedEq] using closed.pending_unplaced
  · simpa [placedEq] using closed.heads_placed
  · simpa [recorded] using closed.heads_recorded
  · rw [code, recorded, comesThrough_append, Instr.leaves_of_not_isMark noMark, alive]
    intro through
    rw [Bool.and_eq_true] at through ⊢
    exact ⟨closed.alive through.1, through.2⟩

theorem emit {ctx : Context} {instr : Instr} (closed : s.Closed heads pending)
    (noMark : instr.isMark = false) (run : Gen.emit ctx instr s = .ok () t) :
    t.Closed heads pending ∧ t.frame.alive = (s.frame.alive && instr.continues) := by
  obtain ⟨_, middle, wrote, ends⟩ := bind_eq_ok.mp run
  have written := Gen.write_emits wrote
  have ended : t = { middle with
      frame := { middle.frame with alive := middle.frame.alive && instr.continues } } := by
    cases instr with
    | op code =>
        cases terminal : code.isTerminal with
        | true =>
            simp only [terminal, if_true] at ends
            obtain ⟨_, marked, rfl⟩ := Gen.onFrame_eq_ok.mp ends
            cases marked
            simp [Instr.continues, terminal]
        | false =>
            simp only [terminal] at ends
            obtain ⟨_, rfl⟩ := pure_eq_ok.mp ends
            simp [Instr.continues, terminal]
    | jump code target | label position => contradiction
    | _ =>
        obtain ⟨_, rfl⟩ := pure_eq_ok.mp ends
        simp [Instr.continues]
  subst ended
  have alive : (middle.frame.alive && instr.continues) = (s.frame.alive && instr.continues) := by
    rw [written.alive_eq]
  exact ⟨closed.write noMark written.instrs_eq written.nextLabel_eq written.shapes_eq alive, alive⟩

/-- Recording a shape does not change what comes through, unless a label that was
placed before is recorded for the first time. -/
theorem comesThrough_of_records {shape : List JType} (closed : s.Closed heads pending)
    (records : s.frame.Records t.frame label shape)
    (known : label ∈ heads ∨ label ∈ pending) :
    comesThrough t.recorded s.code = comesThrough s.recorded s.code := by
  apply comesThrough_congr
  intro other isPlaced
  by_cases same : other = label
  · subst same
    rcases known with isHead | isPending
    · rw [closed.heads_recorded other isHead]
      simp [State.recorded, records.shape_self]
    · exact absurd isPlaced (closed.pending_unplaced other isPending)
  · simp [State.recorded, records.shape_eq_of_ne same]

theorem recorded_of_records {shape : List JType} (records : s.frame.Records t.frame label shape)
    {other : Label} (recorded : s.recorded other = true) : t.recorded other = true := by
  obtain ⟨known, found⟩ := Option.isSome_iff_exists.mp recorded
  simp [State.recorded, records.shape_kept found]

theorem jump {ctx : Context} {code : Opcode} (closed : s.Closed heads pending)
    (known : label ∈ heads ∨ label ∈ pending) (run : Gen.jump ctx code label s = .ok () t) :
    t.Closed heads pending := by
  obtain ⟨marks, -, alive, records⟩ := Gen.jump_marks run
  have grown : t.code = s.code ++ [.jump code label] := marks.instrs_eq
  have placedEq : placed t.code = placed s.code := by simp [grown, placed, Instr.placed?]
  have target : label ∈ pending ∨ label ∈ placed s.code :=
    known.symm.imp_right (closed.heads_placed label)
  constructor
  · intro op other mem
    rw [grown] at mem
    rw [placedEq]
    rcases List.mem_append.mp mem with old | new
    · exact (closed.jumps op other old).imp_left (recorded_of_records records)
    · obtain ⟨-, rfl⟩ := Instr.jump.inj (List.mem_singleton.mp new)
      exact ⟨by simp [State.recorded, records.shape_self], target⟩
  · simpa [grown] using closed.no_goto
  · simpa [placedEq] using closed.placed_nodup
  · simpa [placedEq, marks.nextLabel_eq] using closed.placed_below
  · exact closed.pending_nodup
  · simpa [marks.nextLabel_eq] using closed.pending_below
  · simpa [placedEq] using closed.pending_unplaced
  · simpa [placedEq] using closed.heads_placed
  · exact fun head mem => recorded_of_records records (closed.heads_recorded head mem)
  · rw [grown, comesThrough_append, closed.comesThrough_of_records records known, alive]
    intro through
    have through : (comesThrough s.recorded s.code && code != .goto) = true := through
    rw [Bool.and_eq_true] at through ⊢
    exact ⟨closed.alive through.1, through.2⟩

/-- Placing a label moves it from the pending ones to the placed ones.  Control
comes through if it came before or if the label was jumped to. -/
theorem place {ctx : Context} (closed : s.Closed heads (label :: pending))
    (run : Gen.place ctx label s = .ok () t) : t.Closed heads pending := by
  obtain ⟨marks, later⟩ := Gen.place_later run
  have grown : t.code = s.code ++ [.label label] := marks.instrs_eq
  have placedEq : placed t.code = placed s.code ++ [label] := by simp [grown]
  have unplaced := closed.pending_unplaced label (by simp)
  have keeps : ∀ {other}, s.recorded other = true → t.recorded other = true := by
    intro other recorded
    obtain ⟨shape, found⟩ := Option.isSome_iff_exists.mp recorded
    simp [State.recorded, later.shape_kept other shape found]
  obtain ⟨notPending, pendingNodup⟩ := List.nodup_cons.mp closed.pending_nodup
  constructor
  · intro op other mem
    have old : .jump op other ∈ s.code := by simpa [grown] using mem
    obtain ⟨recorded, known⟩ := closed.jumps op other old
    refine ⟨keeps recorded, ?_⟩
    rw [placedEq, List.mem_append, List.mem_singleton]
    rcases known with pending | placed
    · rcases List.mem_cons.mp pending with same | others
      · exact .inr (.inr same)
      · exact .inl others
    · exact .inr (.inl placed)
  · simpa [grown] using closed.no_goto
  · rw [placedEq]
    exact closed.placed_nodup.append (by simp) (by simpa using unplaced)
  · rw [placedEq, marks.nextLabel_eq]
    intro other mem
    rcases List.mem_append.mp mem with old | new
    · exact closed.placed_below other old
    · obtain rfl := List.mem_singleton.mp new
      exact closed.pending_below other (by simp)
  · exact pendingNodup
  · rw [marks.nextLabel_eq]
    exact fun other mem => closed.pending_below other (List.mem_cons_of_mem _ mem)
  · rw [placedEq]
    intro other mem found
    rcases List.mem_append.mp found with old | new
    · exact closed.pending_unplaced other (List.mem_cons_of_mem _ mem) old
    · obtain rfl := List.mem_singleton.mp new
      exact notPending mem
  · rw [placedEq]
    exact fun head mem => List.mem_append_left _ (closed.heads_placed head mem)
  · exact fun head mem => keeps (closed.heads_recorded head mem)
  · cases alive : s.frame.alive with
    | true => exact fun _ => (Gen.place_marks_of_alive alive run).2.2.1
    | false =>
        obtain ⟨-, shapes, revived, -⟩ := Gen.place_marks_of_dead alive run
        have same : t.recorded = s.recorded := by
          funext other
          simp [State.recorded, State.shape?, shapes]
        have stuck : comesThrough s.recorded s.code = false := by
          by_contra through
          rw [closed.alive (by simpa using through)] at alive
          contradiction
        rw [grown, comesThrough_append, same, stuck, revived]
        simp [Instr.leaves, State.recorded, State.shape?]

/-- A label that is placed where the position can be reached becomes a head. -/
theorem place_head {ctx : Context} (closed : s.Closed heads (label :: pending))
    (alive : s.frame.alive = true) (run : Gen.place ctx label s = .ok () t) :
    t.Closed (label :: heads) pending := by
  have placing := closed.place run
  obtain ⟨marks, -, -, records⟩ := Gen.place_marks_of_alive alive run
  have grown : t.code = s.code ++ [.label label] := marks.instrs_eq
  refine { placing with heads_placed := ?_, heads_recorded := ?_ }
  · exact List.forall_mem_cons.mpr ⟨by simp [grown], placing.heads_placed⟩
  · exact List.forall_mem_cons.mpr
      ⟨by simp [State.recorded, records.shape_self], placing.heads_recorded⟩

end State.Closed

/-! ## Runs -/

namespace Gen

variable {α : Type} {ctx : Context} {pairing : Pairing}

/-- Every run of the generator keeps the invariant. -/
theorem Parallel.closed {live : Bool} {heads pending after : List (Label × Label)} {x x' : Gen α}
    (parallel : Parallel ctx pairing live heads pending x x' after) {s t : State} {a : α}
    (alive : live = true → s.frame.alive = true)
    (closed : s.Closed (heads.map Prod.fst) (pending.map Prod.fst)) (run : x s = .ok a t) :
    t.Closed (heads.map Prod.fst) (after.map Prod.fst) := by
  induction parallel generalizing s t with
  | pure b =>
      obtain ⟨_, rfl⟩ := pure_eq_ok.mp run
      exact closed
  | throw same => exact (throw_eq_ok.mp run).elim
  | bind _ _ ihFirst ihRest =>
      obtain ⟨b, u, ran, rest⟩ := bind_eq_ok.mp run
      exact ihRest b (by simp) (ihFirst alive closed ran) rest
  | onFrame quiet =>
      obtain ⟨frame, ran, rfl⟩ := onFrame_eq_ok.mp run
      exact closed.congr rfl (quiet.shapes_eq ran) (quiet.alive ran)
  | emit noMark => exact (closed.emit noMark run).1
  | newLabel _ ih =>
      obtain ⟨label, u, allocated, rest⟩ := bind_eq_ok.mp run
      have same : u.frame = s.frame := by
        obtain ⟨-, rfl⟩ := newLabel_eq_ok.mp allocated
        rfl
      exact ih label label (same ▸ alive) (closed.newLabel allocated) rest
  | jump code known =>
      apply closed.jump _ run
      exact (List.mem_append.mp known).imp List.mem_map_of_mem List.mem_map_of_mem
  | place isPending => exact (closed.perm (isPending.map Prod.fst)).place run
  | head isPending _ ih =>
      obtain ⟨_, u, placed, rest⟩ := bind_eq_ok.mp run
      have placing := (closed.perm (isPending.map Prod.fst)).place_head (alive rfl) placed
      have inner := ih (by simp) placing rest
      exact { inner with
        heads_placed := fun head mem => inner.heads_placed head (List.mem_cons_of_mem _ mem)
        heads_recorded := fun head mem => inner.heads_recorded head (List.mem_cons_of_mem _ mem) }
  | value _ ih => exact ih alive closed (value_eq_ok.mp run).1
  | operation name _ ih =>
      obtain ⟨isAlive, u, ran, rfl⟩ := operation_eq_ok.mp run
      have entered : State.Closed _ _ { s with depth := s.depth + 1 } := closed.congr rfl rfl rfl
      exact (ih (by simpa using isAlive) entered ran).congr rfl rfl rfl
  | probe _ _ _ =>
      obtain ⟨frame, output, -, -⟩ := probe_ok run
      exact closed.congr output (by rw [frame]) (by rw [frame])

/-- Binding parameters takes the same steps as declaring variables. -/
theorem Alike.bindParams (params : List (String × JType)) :
    Alike ctx pairing (bindParams params) (bindParams params) := by
  induction params with
  | nil => exact pure ()
  | cons param rest ih => exact bind (onFrame (.addLocal (some param.1) param.2)) fun _ => ih

/-- A method begins and ends with closed control flow, and control does not come
through its end. -/
theorem method_closed {spec : MethodSpec} {limits : Limits} {t : State}
    (run : method ctx spec {} = .ok limits t) :
    ∃ closed : State, t.output = closed.output ∧ closed.Closed [] [] ∧
      closed.frame.alive = false := by
  obtain ⟨log, bound, generated, closed, binds, generates, closes, outputEq, -⟩ := method_eq_ok run
  have ofBound : bound.Closed [] [] :=
    (Alike.bindParams spec.bindings false [] [] : Parallel ctx (.below []) _ _ _ _ _ _).closed
      (by simp) (State.Closed.start log) binds
  have covers := Pairing.below_covers (List.suffix_rfl (l := [])) (operandIn? 0 spec.body)
  have ofGenerated : generated.Closed [] [] :=
    (codeFrom_alike ctx (.below []) [] [] 0 spec.body covers false [] []).closed (by simp) ofBound
      generates
  refine ⟨closed, outputEq, ?_⟩
  rcases whenAlive_eq_ok.mp closes with ⟨alive, ran⟩ | ⟨dead, rfl⟩
  · obtain ⟨ofClosed, dead⟩ := ofGenerated.emit rfl (close_eq_ok ran).2.2
    have terminal : Opcode.returnVoid.isTerminal = true := by decide
    exact ⟨ofClosed, by simpa [Instr.continues, alive, terminal] using dead⟩
  · exact ⟨ofGenerated, dead⟩

end Gen

/-! ## Paths -/

/-- A list of instructions in which every jump has its label, no label stands
twice, and every path from the first instruction can be continued until it comes
to a return or throw. -/
structure ClosedFlow (code : List Instr) : Prop where
  targets_placed : ∀ op target, .jump op target ∈ code → .label target ∈ code
  placed_nodup : (placed code).Nodup
  within : ∀ i, Reachable code i → i < code.length
  ends : ∀ i, Reachable code i → (∀ j, ¬Edge code i j) →
    ∃ op, code[i]? = some (.op op) ∧ (Opcode.ireturn ≤ op ∧ op ≤ Opcode.returnVoid ∨ op = .athrow)

section

variable {entered : Label → Bool} {code : List Instr} {i j : Nat}

/-- Control can be at a position: it comes through what stands before, or there
is a label that is jumped to. -/
def CanBeAt (entered : Label → Bool) (code : List Instr) (i : Nat) : Prop :=
  i ≤ code.length ∧ (comesThrough entered (code.take i) = true ∨
    ∃ label, code[i]? = some (.label label) ∧ entered label = true)

theorem CanBeAt.of_edge (jumps : ∀ op target, .jump op target ∈ code → entered target = true)
    (here : CanBeAt entered code i) (edge : Edge code i j) : CanBeAt entered code j := by
  cases edge with
  | @next instr found continues =>
      have bound : i < code.length := (List.getElem?_eq_some_iff.mp found).1
      refine ⟨bound, .inl ?_⟩
      rw [List.take_add_one, found, Option.toList_some, comesThrough_append]
      rcases here.2 with through | ⟨label, isLabel, isEntered⟩
      · rw [through]
        cases instr <;> simp_all [Instr.leaves]
      · obtain rfl := Option.some.inj (found.symm.trans isLabel)
        simp [Instr.leaves, isEntered]
  | jump found placed =>
      have bound : j < code.length := (List.getElem?_eq_some_iff.mp placed).1
      exact ⟨bound.le, .inr ⟨_, placed, jumps _ _ (List.mem_of_getElem? found)⟩⟩

theorem CanBeAt.of_reachable (jumps : ∀ op target, .jump op target ∈ code → entered target = true)
    (reachable : Reachable code i) : CanBeAt entered code i := by
  induction reachable with
  | refl => exact ⟨Nat.zero_le _, .inl rfl⟩
  | tail _ edge ih => exact ih.of_edge jumps edge

end

theorem mem_placed {code : List Instr} {label : Label} : label ∈ placed code ↔ .label label ∈ code := by
  simp only [placed, List.mem_filterMap]
  constructor
  · rintro ⟨instr, mem, isPlaced⟩
    cases instr <;> simp_all [Instr.placed?]
  · exact fun mem => ⟨_, mem, rfl⟩

/-- An instruction of closed control flow that leads nowhere ends the method. -/
theorem closedFlow_of_closed {s : State} (closed : s.Closed [] []) (dead : s.frame.alive = false) :
    ClosedFlow s.code := by
  have targets : ∀ op target, .jump op target ∈ s.code → .label target ∈ s.code := by
    intro op target mem
    rcases (closed.jumps op target mem).2 with pending | placed
    · contradiction
    · exact mem_placed.mp placed
  have stuck : comesThrough s.recorded s.code = false := by
    by_contra through
    rw [closed.alive (by simpa using through)] at dead
    contradiction
  have within : ∀ i, Reachable s.code i → i < s.code.length := by
    intro i reachable
    obtain ⟨bound, here⟩ :=
      CanBeAt.of_reachable (fun op target mem => (closed.jumps op target mem).1) reachable
    rcases here with through | ⟨label, isLabel, -⟩
    · by_contra beyond
      rw [List.take_of_length_le (by omega), stuck] at through
      contradiction
    · exact (List.getElem?_eq_some_iff.mp isLabel).1
  refine ⟨targets, closed.placed_nodup, within, fun i reachable final => ?_⟩
  obtain ⟨instr, found⟩ : ∃ instr, s.code[i]? = some instr :=
    ⟨_, List.getElem?_eq_getElem (within i reachable)⟩
  have ended : instr.continues = false := by
    by_contra continues
    exact final _ (.next found (by simpa using continues))
  cases instr with
  | op code =>
      refine ⟨code, found, ?_⟩
      have notGoto : code ≠ .goto := by
        rintro rfl
        exact closed.no_goto (List.mem_of_getElem? found)
      have terminal : code.isTerminal = true := by simpa [Instr.continues] using ended
      simpa [Opcode.isTerminal, notGoto] using terminal
  | jump code target =>
      obtain ⟨j, isLabel⟩ := List.mem_iff_getElem?.mp (targets code target (List.mem_of_getElem? found))
      exact absurd (.jump found isLabel) (final j)
  | _ => simp [Instr.continues] at ended

/-- Control flow of assembled methods is closed, whatever their bodies are: jumps
have their labels, labels stand once, and no path runs past the last
instruction; a path that cannot go on has come to a return or throw. -/
theorem MethodSpec.closedFlow_of_assemble (cls : ClassContext) (spec : MethodSpec)
    (method : AssembledMethod) (assembled : spec.assemble cls = .ok method) :
    ClosedFlow method.instrs := by
  obtain ⟨limits, s, ran, rfl⟩ := exists_method_of_assemble assembled
  obtain ⟨closed, output, ofClosed, dead⟩ := Gen.method_closed ran
  have flow := closedFlow_of_closed ofClosed dead
  rwa [State.code, ← output] at flow

/-- Every branch of the sample returns, so that its last label is not entered. -/
theorem Sample.closedFlow_branchNames :
    ∃ method, branchNames.assemble (classContext "Demo" {}) = .ok method ∧
      ClosedFlow method.instrs := by
  have succeeds : (branchNames.assemble (classContext "Demo" {})).isOk = true := by decide +kernel
  cases assembled : branchNames.assemble (classContext "Demo" {}) with
  | error e => simp [assembled, Except.isOk, Except.toBool] at succeeds
  | ok method =>
      exact ⟨method, rfl, MethodSpec.closedFlow_of_assemble (classContext "Demo" {}) branchNames
        method assembled⟩

end JvmAssembler
