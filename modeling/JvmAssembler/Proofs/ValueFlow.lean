import Mathlib
import JvmAssembler.Proofs.Advance
import JvmAssembler.Proofs.Operands
import JvmAssembler.Proofs.StackSlots

/-!
# Operands and conditions keep the stack in step

A run that generates a value chain adds one value of the chain's type to the
simulated stack and leaves all else alone; a run that generates a branch leaves
the stack as it was, on the way through and for the target.  In both cases the
instructions written do to the categories on the machine's stack what the run
does to the types on the simulated one, and they stay within its greatest depth.
-/

namespace JvmAssembler

/-! ## Flow between states -/

namespace State

/-- The operand stack in categories, where the position can be reached. -/
def view (s : State) : Option (List Category) :=
  if s.frame.alive then some (s.frame.stack.map JType.category) else none

variable {s : State}

theorem view_of_alive (alive : s.frame.alive = true) :
    s.view = some (s.frame.stack.map JType.category) := by
  simp [view, alive]

theorem view_of_dead (dead : s.frame.alive = false) : s.view = none := by
  simp [view, dead]

theorem slotsWithin_view (sized : s.frame.Sized) {stack : List Category}
    (here : s.view = some stack) : SlotsWithin s.frame.maxStack.toNat stack := by
  unfold view at here
  split at here
  · cases here
    exact sized.stack_fits.slotsWithin
  · contradiction

/-- The labels handed out before a state. -/
def old (s : State) : Set Label :=
  { label | label.id < s.output.nextLabel }

@[simp]
theorem mem_old {label : Label} : label ∈ s.old ↔ label.id < s.output.nextLabel :=
  Iff.rfl

/-- Stacks for labels that agree with what is recorded in the state, and for
labels handed out before and not in `pending` say no more than that. -/
structure Settled (s : State) (pending : Set Label) (shapes : Label → Option (List Category)) :
    Prop where
  recorded : ∀ label shape, s.shape? label = some shape →
    shapes label = some (shape.map JType.category)
  unrecorded : ∀ label ∈ s.old, label ∉ pending → s.shape? label = none → shapes label = none

end State

/-- The code between two states fits every assignment of stacks to labels that
agrees with the shapes recorded at the end, up to labels that are still
pending. -/
def Flows (result : JType) (pending : Set Label) (s t : State) : Prop :=
  ∀ shapes, t.Settled pending shapes → flow result shapes s.view (written s t) = some t.view

theorem Flows.mono {result : JType} {pending pending' : Set Label} {s t : State}
    (flows : Flows result pending' s t) (fewer : pending ⊆ pending') : Flows result pending s t :=
  fun shapes settled => flows shapes
    ⟨settled.recorded, fun label old new => settled.unrecorded label old fun mem => new (fewer mem)⟩

/-- The code between two states needs no more slots than the greatest depth at
the end, for the same assignments of stacks to labels. -/
def StaysBelow (result : JType) (pending : Set Label) (s t : State) : Prop :=
  ∀ shapes, t.Settled pending shapes →
    StaysWithin t.frame.maxStack.toNat result shapes s.view (written s t)

/-- A part of a run that may record shapes for `targets` and for labels that it
hands out. -/
structure Passes (result : JType) (pending : Set Label) (targets : List Label) (s t : State) :
    Prop where
  later : Later targets s t
  code_eq : t.code = s.code ++ written s t
  flows : Flows result pending s t
  grows : s.frame.Grows t.frame
  below : s.frame.Sized → StaysBelow result pending s t

namespace Passes

variable {result : JType} {pending pending' : Set Label} {targets targets' : List Label}
variable {s t u : State}

theorem mono (passes : Passes result pending' targets s t) (fewer : pending ⊆ pending')
    (more : targets ⊆ targets') : Passes result pending targets' s t where
  later := passes.later.mono more
  code_eq := passes.code_eq
  flows := passes.flows.mono fewer
  grows := passes.grows
  below sized shapes settled := passes.below sized shapes
    ⟨settled.recorded, fun label old new => settled.unrecorded label old fun mem => new (fewer mem)⟩

/-- What is settled at the end of a later part is settled before it, up to the
labels that it may still record. -/
theorem settled_before (passes : Passes result pending targets u t) (fewer : pending ⊆ pending')
    (known : ∀ label ∈ targets, label ∈ pending') {shapes : Label → Option (List Category)}
    (settled : t.Settled pending shapes) : u.Settled pending' shapes := by
  constructor
  · intro label shape recorded
    exact settled.recorded label shape (passes.later.shape_kept label shape recorded)
  · intro label old new unrecorded
    apply settled.unrecorded label (Nat.lt_of_lt_of_le old passes.later.nextLabel_le)
    · exact fun mem => new (fewer mem)
    · rw [passes.later.shape_eq label old fun mem => new (known label mem), unrecorded]

/-- Labels that the second part may still record are pending for the first. -/
theorem trans (first : Passes result pending' targets s u)
    (second : Passes result pending targets' u t) (fewer : pending ⊆ pending')
    (known : ∀ label ∈ targets', label ∈ pending') (more : targets' ⊆ targets) :
    Passes result pending targets s t where
  later := first.later.trans_subset second.later more
  code_eq := by
    rw [written_trans first.code_eq second.code_eq, ← List.append_assoc, ← first.code_eq,
      ← second.code_eq]
  flows := by
    intro shapes settled
    rw [written_trans first.code_eq second.code_eq]
    exact flow_trans (first.flows shapes (second.settled_before fewer known settled))
      (second.flows shapes settled)
  grows := first.grows.trans second.grows
  below := by
    intro sized shapes settled
    have middle := second.settled_before fewer known settled
    rw [written_trans first.code_eq second.code_eq]
    exact ((first.below sized shapes middle).mono second.grows.maxStack_le).append
      (first.flows shapes middle) (second.below (first.grows.sized sized) shapes settled)

/-- Two parts neither of which needs to know of the other's labels. -/
theorem seq (first : Passes result s.old targets s u) (second : Passes result u.old targets' u t)
    (known : ∀ label ∈ targets', label ∈ s.old) (more : targets' ⊆ targets) :
    Passes result s.old targets s t :=
  first.trans (second.mono (fun _ old => Nat.lt_of_lt_of_le old first.later.nextLabel_le)
    (List.Subset.refl targets')) (Set.Subset.refl _) known more

/-- Two parts that record nothing for labels of others. -/
theorem andThen (first : Passes result s.old [] s u) (second : Passes result u.old [] u t) :
    Passes result s.old [] s t :=
  first.seq second (by simp) (by simp)

/-- A part of a run that writes at most one instruction needs no slots but those
at its ends. -/
theorem of_short {instrs : List Instr} (later : Later targets s t)
    (grown : t.code = s.code ++ instrs) (short : instrs.length ≤ 1)
    (grows : s.frame.Grows t.frame) (flows : Flows result pending s t) :
    Passes result pending targets s t where
  later := later
  code_eq := by rw [written_eq grown, grown]
  flows := flows
  grows := grows
  below := by
    intro sized shapes settled
    apply StaysWithin.of_short (by rwa [written_eq grown])
    · intro stack here
      exact (State.slotsWithin_view sized here).mono grows.maxStack_le
    · intro stack here
      rw [flows shapes settled] at here
      exact fun counted =>
        State.slotsWithin_view (grows.sized sized) (Option.some.inj here) counted.here

theorem of_unwritten (later : Later targets s t) (same : t.view = s.view)
    (code : t.code = s.code) (grows : s.frame.Grows t.frame) :
    Passes result pending targets s t := by
  have grown : t.code = s.code ++ [] := by simp [code]
  apply of_short later grown (Nat.zero_le _) grows
  intro shapes _
  rw [written_eq grown, same]
  rfl

/-- A part of a run between two changes of state that neither write nor record
anything. -/
theorem between {s' t' : State} (passes : Passes result s'.old targets s' t')
    (enter : s'.output = s.output ∧ s'.frame.shapes = s.frame.shapes ∧ s'.view = s.view ∧
      s.frame.Grows s'.frame)
    (leave : t.output = t'.output ∧ t.frame.shapes = t'.frame.shapes ∧ t.view = t'.view ∧
      t'.frame.Grows t.frame)
    (known : ∀ label ∈ targets, label ∈ s.old) : Passes result s.old targets s t := by
  have entering : Passes result s.old targets s s' :=
    of_unwritten (Later.of_shapes (by rw [enter.1]) enter.2.1) enter.2.2.1
      (by simp [State.code, enter.1]) enter.2.2.2
  have leaving : Passes result t'.old targets t' t :=
    of_unwritten (Later.of_shapes (by rw [leave.1]) leave.2.1) leave.2.2.1
      (by simp [State.code, leave.1]) leave.2.2.2
  exact (entering.seq passes known (List.Subset.refl _)).seq leaving known (List.Subset.refl _)

theorem refl (s : State) : Passes result pending targets s s :=
  of_unwritten (Later.refl targets s) rfl rfl (.refl _)

/-- Plain code that stays within every limit of its ends. -/
theorem of_steady {code : List Instr} {stack : List JType} (alive : s.frame.alive = true)
    (emits : Gen.Emits s t code stack) (plain : ∀ instr ∈ code, instr.isPlain = true)
    (steps : afterAll? code (s.frame.stack.map JType.category) = some (stack.map JType.category))
    (steady : Steady result code (s.frame.stack.map JType.category) (stack.map JType.category)) :
    Passes result pending targets s t where
  later := Later.of_shapes emits.nextLabel_eq emits.shapes_eq
  code_eq := by
    rw [written_eq emits.instrs_eq]
    exact emits.instrs_eq
  flows := by
    intro shapes _
    rw [written_eq emits.instrs_eq, State.view_of_alive alive,
      State.view_of_alive (emits.alive_eq.trans alive), emits.stack_eq]
    exact flow_of_afterAll? plain steps
  grows := emits.grows
  below := by
    intro sized shapes _
    rw [written_eq emits.instrs_eq, State.view_of_alive alive]
    have leaves := (emits.grows.sized sized).stack_fits.slotsWithin
    rw [emits.stack_eq] at leaves
    exact steady _ shapes (sized.stack_fits.slotsWithin.mono emits.grows.maxStack_le) leaves

theorem of_emits {code : List Instr} {stack : List JType} (alive : s.frame.alive = true)
    (emits : Gen.Emits s t code stack) (plain : ∀ instr ∈ code, instr.isPlain = true)
    (steps : afterAll? code (s.frame.stack.map JType.category) = some (stack.map JType.category))
    (short : code.length ≤ 1) : Passes result pending targets s t :=
  of_steady alive emits plain steps (Steady.of_short plain steps short)

end Passes

namespace Gen

/-! ## Runs that stay in their scope -/

/-- Types for positions that agree with all remembered ones. -/
def Knows (types : Position → Option JType) (s : State) : Prop :=
  ∀ p ty, s.probed[p]? = some ty → types p = some ty

/-- The locals are the given ones, with as many names as types, and what is
remembered and recorded is in order. -/
structure Tidy (locals : LocalTable) (types : Position → Option JType) (s : State) :
    Prop where
  locals_eq : s.frame.locals = locals
  matched : locals.Matched
  shapesBelow : s.ShapesBelow
  knows : Knows types s

/-- A state in which an operand can be generated. -/
structure Ready (locals : LocalTable) (types : Position → Option JType) (s : State) : Prop
    extends Tidy locals types s where
  alive : s.frame.alive = true

/-- A run through straight-line or branching code that ends with `stack` on the
simulated stack and keeps the locals. -/
structure Goes (result : JType) (types : Position → Option JType) (s t : State)
    (stack : List JType) : Prop extends Passes result s.old [] s t where
  stack_eq : t.frame.stack = stack
  locals_eq : t.frame.locals = s.frame.locals
  scopes_eq : t.frame.scopes = s.frame.scopes
  alive : t.frame.alive = true
  knows : Knows types s → Knows types t

namespace Goes

variable {result : JType} {types : Position → Option JType} {s t u : State}
variable {stack middle : List JType}

theorem trans (first : Goes result types s u middle) (second : Goes result types u t stack) :
    Goes result types s t stack where
  toPasses := first.toPasses.andThen second.toPasses
  stack_eq := second.stack_eq
  locals_eq := second.locals_eq.trans first.locals_eq
  scopes_eq := second.scopes_eq.trans first.scopes_eq
  alive := second.alive
  knows := second.knows ∘ first.knows

theorem of_steady {code : List Instr} (alive : s.frame.alive = true)
    (emits : Emits s t code stack) (plain : ∀ instr ∈ code, instr.isPlain = true)
    (steps : afterAll? code (s.frame.stack.map JType.category) = some (stack.map JType.category))
    (steady : Steady result code (s.frame.stack.map JType.category) (stack.map JType.category)) :
    Goes result types s t stack where
  toPasses := Passes.of_steady alive emits plain steps steady
  stack_eq := emits.stack_eq
  locals_eq := emits.locals_eq
  scopes_eq := emits.scopes_eq
  alive := emits.alive_eq.trans alive
  knows := by simp [Knows, emits.probed_eq]

theorem of_emits {code : List Instr} (alive : s.frame.alive = true)
    (emits : Emits s t code stack) (plain : ∀ instr ∈ code, instr.isPlain = true)
    (steps : afterAll? code (s.frame.stack.map JType.category) = some (stack.map JType.category))
    (short : code.length ≤ 1) : Goes result types s t stack :=
  of_steady alive emits plain steps (Steady.of_short plain steps short)

theorem refl (alive : s.frame.alive = true) : Goes result types s s s.frame.stack :=
  of_emits alive (Emits.refl s) (by simp) rfl (Nat.zero_le _)

/-- An instruction that takes operands after they were popped. -/
theorem consume {ctx : Context} {instr : Instr} (takes : List JType) {rest : List JType}
    (alive : s.frame.alive = true) (stackEq : s.frame.stack = takes ++ rest)
    (popped : Emits s u [] rest) (plain : instr.isPlain = true)
    (effect : instr.effect? = some ⟨takes.map JType.category, []⟩)
    (emitted : emit ctx instr u = .ok () t) : Goes result types s t rest := by
  have emits := popped.trans (emit_emits plain emitted)
  rw [popped.stack_eq] at emits
  refine of_emits alive emits (by simpa using plain) ?_ le_rfl
  rw [stackEq, List.map_append]
  exact afterAll?_singleton effect _

/-- An instruction that takes operands after they were popped and leaves a value
that is pushed after it. -/
theorem produce {ctx : Context} {instr : Instr} {v : State} (takes : List JType) {ty : JType}
    {rest : List JType} (alive : s.frame.alive = true) (stackEq : s.frame.stack = takes ++ rest)
    (popped : Emits s u [] rest) (plain : instr.isPlain = true)
    (effect : instr.effect? = some ⟨takes.map JType.category, [ty.category]⟩)
    (emitted : emit ctx instr u = .ok () v) (pushing : push ty v = .ok () t) :
    ty.isVoid = false ∧ Goes result types s t (ty :: rest) := by
  obtain ⟨pushed, notVoid⟩ := push_emits pushing
  have wrote := emit_emits plain emitted
  have emits := popped.trans (wrote.trans pushed)
  rw [wrote.stack_eq, popped.stack_eq] at emits
  refine ⟨notVoid, of_emits alive emits (by simpa using plain) ?_ le_rfl⟩
  rw [stackEq, List.map_append]
  exact afterAll?_singleton effect _

theorem ready {locals : LocalTable} (goes : Goes result types s t stack)
    (ready : Ready locals types s) : Ready locals types t where
  alive := goes.alive
  locals_eq := goes.locals_eq.trans ready.locals_eq
  matched := ready.matched
  shapesBelow := goes.later.shapesBelow ready.shapesBelow (by simp)
  knows := goes.knows ready.knows

end Goes

/-! ## Operands -/

/-- Code that, where it adds one value to the stack, adds one of the given type
and does nothing else. -/
def Evaluates (result : JType) (locals : LocalTable) (types : Position → Option JType)
    (code : Gen Unit) (type : Option JType) : Prop :=
  ∀ ⦃s t⦄, Ready locals types s → code s = .ok () t →
    t.frame.stack.length = s.frame.stack.length + 1 →
    ∃ ty, type = some ty ∧ ty.isVoid = false ∧ Goes result types s t (ty :: s.frame.stack)

/-- An operand that evaluates to the type under which its position is known. -/
structure OfOperand (result : JType) (locals : LocalTable) (types : Position → Option JType)
    (operand : Operand) (type : Option JType) : Prop where
  evaluates : Evaluates result locals types operand.code type
  known : types operand.position = type

variable {ctx : Context} {locals : LocalTable} {types : Position → Option JType}
variable {s t u : State} {code : Gen Unit} {type : Option JType}

theorem Evaluates.value {ty : JType} (evaluates : Evaluates ctx.result locals types code type)
    (ready : Ready locals types s) (run : value code s = .ok ty t) :
    type = some ty ∧ ty.isVoid = false ∧ Goes ctx.result types s t (ty :: s.frame.stack) := by
  obtain ⟨ran, rest, stackEq, depth⟩ := value_eq_ok.mp run
  obtain ⟨found, typed, notVoid, goes⟩ := evaluates ready ran (by simp [stackEq, depth])
  obtain ⟨rfl, -⟩ := List.cons.inj (stackEq.symm.trans goes.stack_eq)
  exact ⟨typed, notVoid, goes⟩

/-- Probing finds the type that is known for the operand's position, if a dry run
does. -/
theorem probe_knows {operand : Operand} {ty : JType} (known : types operand.position = type)
    (knows : Knows types s)
    (dryRun : ∀ dry, Gen.value operand.code s.dryRun = .ok ty dry →
      type = some ty ∧ Knows types dry)
    (run : probe ctx operand s = .ok ty t) : type = some ty ∧ Knows types t := by
  obtain ⟨-, -, -, ⟨remembered, same⟩ | ⟨dry, valued, memory⟩⟩ := probe_ok run
  · refine ⟨known ▸ knows _ _ remembered, ?_⟩
    simpa [Knows, same] using knows
  · obtain ⟨isType, dryKnows⟩ := dryRun dry valued
    refine ⟨isType, ?_⟩
    rcases memory with empty | same | inserted
    · simp [Knows, empty]
    · simpa [Knows, same] using knows
    · intro p found recorded
      rw [inserted, Std.TreeMap.getElem?_insert] at recorded
      split at recorded
      · rename_i isPosition
        have isPosition : operand.position = p := by simpa using isPosition
        rw [← isPosition, known, isType, ← recorded]
      · exact dryKnows p found recorded

/-- A probe finds the type of its operand and changes the memory only. -/
theorem OfOperand.probe {operand : Operand} {ty : JType}
    (typed : OfOperand ctx.result locals types operand type) (ready : Ready locals types s)
    (run : probe ctx operand s = .ok ty t) :
    type = some ty ∧ Goes ctx.result types s t s.frame.stack := by
  obtain ⟨frame, output, -, -⟩ := probe_ok run
  have dryReady : Ready locals types s.dryRun :=
    { locals_eq := ready.locals_eq
      matched := ready.matched
      shapesBelow := by simp [State.ShapesBelow, State.shape?, State.dryRun, Frame.fork]
      knows := ready.knows
      alive := ready.alive }
  have found : type = some ty ∧ Knows types t := by
    refine probe_knows typed.known ready.knows (fun dry valued => ?_) run
    obtain ⟨isType, -, goes⟩ := typed.evaluates.value dryReady valued
    exact ⟨isType, goes.knows dryReady.knows⟩
  refine ⟨found.1, ?_⟩
  exact
    { toPasses := Passes.of_unwritten (Later.of_shapes (by rw [output]) (by rw [frame]))
        (by simp [State.view, frame]) (by simp [State.code, output])
        (.of_same (by rw [frame]) (by rw [frame]) (by rw [frame]) (by rw [frame]))
      stack_eq := by rw [frame]
      locals_eq := by rw [frame]
      scopes_eq := by rw [frame]
      alive := by rw [frame, ready.alive]
      knows := fun _ => found.2 }

/-! ## Conversions -/

theorem converted_goes {source target : JType} {rest : List JType} (alive : s.frame.alive = true)
    (stackEq : s.frame.stack = source :: rest) (legal : conversion ctx source target ≠ .illegal)
    (emits : Emits s t ((conversion ctx source target).instrs source target) (target :: rest)) :
    (source.isVoid = false → target.isVoid = false) ∧
      Goes ctx.result types s t (target :: rest) := by
  refine ⟨fun notVoid => ?_, ?_⟩
  · by_contra targetVoid
    have differ : source ≠ target := by
      rintro rfl
      exact targetVoid notVoid
    have targetVoid : target.isVoid = true := by simpa using targetVoid
    exact legal (by simp [conversion, Conversion.classify, differ, targetVoid])
  · apply Goes.of_steady alive emits (Conversion.instrs_plain _ source target)
    · rw [stackEq]
      exact Conversion.afterAll?_instrs legal (Conversion.between_classify _ _ _ _) _
    · rw [stackEq]
      exact fun limit shapes enters leaves => Conversion.instrs_staysWithin legal
        (Conversion.between_classify _ _ _ _) enters leaves

/-- An implicit conversion of the top. -/
theorem coerceTop_goes {target : JType} (alive : s.frame.alive = true)
    (run : coerceTop ctx target s = .ok () t) :
    ∃ source rest, s.frame.stack = source :: rest ∧
      (source.isVoid = false → target.isVoid = false) ∧
      Goes ctx.result types s t (target :: rest) := by
  obtain ⟨source, rest, stackEq, implicit, emits⟩ := coerceTop_emits run
  have legal : conversion ctx source target ≠ .illegal := by
    intro illegal
    simp [illegal, Conversion.isImplicit] at implicit
  exact ⟨source, rest, stackEq, converted_goes alive stackEq legal emits⟩

/-- A cast of the top. -/
theorem castTop_goes {target : JType} (alive : s.frame.alive = true)
    (run : castTop ctx target s = .ok () t) :
    ∃ source rest, s.frame.stack = source :: rest ∧
      (source.isVoid = false → target.isVoid = false) ∧
      Goes ctx.result types s t (target :: rest) := by
  obtain ⟨source, rest, stackEq, legal, emits⟩ := castTop_emits run
  exact ⟨source, rest, stackEq, converted_goes alive stackEq legal emits⟩

/-- A value followed by its conversion. -/
theorem Evaluates.coerced {ty target : JType}
    (evaluates : Evaluates ctx.result locals types code type) (ready : Ready locals types s)
    (run : Gen.value code s = .ok ty u) (coerced : coerceTop ctx target u = .ok () t) :
    target.isVoid = false ∧ Goes ctx.result types s t (target :: s.frame.stack) := by
  obtain ⟨-, notVoid, first⟩ := evaluates.value ready run
  obtain ⟨source, rest, stackEq, values, second⟩ := coerceTop_goes first.alive coerced
  obtain ⟨rfl, rfl⟩ := List.cons.inj (stackEq.symm.trans first.stack_eq)
  exact ⟨values notVoid, first.trans second⟩

/-! ## Sources -/

theorem constant_goes {literal : Literal} (alive : s.frame.alive = true)
    (run : constant ctx literal s = .ok () t) :
    Goes ctx.result types s t (literal.type :: s.frame.stack) := by
  obtain ⟨_, u, emitted, pushing⟩ := bind_eq_ok.mp run
  obtain ⟨plain, effect⟩ := Instr.effect?_constantInstr literal
  exact (Goes.produce [] alive rfl (Emits.refl s) plain effect emitted pushing).2

theorem source_goes {op : Opcode} {ty : JType} (alive : s.frame.alive = true)
    (plain : (Instr.op op).isPlain = true)
    (effect : (Instr.op op).effect? = some ⟨[], [ty.category]⟩)
    (run : source ctx op ty s = .ok () t) :
    Goes ctx.result types s t (ty :: s.frame.stack) := by
  obtain ⟨_, u, emitted, pushing⟩ := bind_eq_ok.mp run
  exact (Goes.produce [] alive rfl (Emits.refl s) plain effect emitted pushing).2

theorem boolean_goes {value : Bool} (alive : s.frame.alive = true)
    (run : boolean ctx value s = .ok () t) :
    Goes ctx.result types s t (.boolean :: s.frame.stack) := by
  cases value <;> exact source_goes alive rfl rfl run

theorem receiverLoad_goes (alive : s.frame.alive = true)
    (run : receiverLoad ctx s = .ok () t) :
    Goes ctx.result types s t (.self :: s.frame.stack) := by
  unfold receiverLoad at run
  obtain ⟨-, loaded⟩ := check_eq_ok.mp run
  obtain ⟨_, u, emitted, pushing⟩ := bind_eq_ok.mp loaded
  exact (Goes.produce [] alive rfl (Emits.refl s) rfl rfl emitted pushing).2

theorem resolveIndex_eq_ok {name : String} {slot : Slot} :
    onFrame (Frame.resolveIndex name) s = .ok slot t ↔
      (∃ index, Frame.indexIn? s.frame.locals name = some index ∧
        slot = index.toUInt16) ∧ s = t := by
  simp only [onFrame_eq_ok, Frame.resolveIndex_eq_ok]
  constructor
  · rintro ⟨_, ⟨rfl, index, found, rfl⟩, rfl⟩
    exact ⟨⟨index, found, rfl⟩, rfl⟩
  · rintro ⟨⟨index, found, rfl⟩, rfl⟩
    exact ⟨s.frame, ⟨rfl, index, found, rfl⟩, rfl⟩

theorem localType_eq_ok {slot : Slot} {ty : JType} :
    onFrame (Frame.localType slot) s = .ok ty t ↔
      Frame.typeIn? s.frame.locals slot.toNat = some ty ∧ s = t := by
  simp only [onFrame_eq_ok, Frame.localType_eq_ok]
  constructor
  · rintro ⟨_, ⟨typed, rfl⟩, rfl⟩
    exact ⟨typed, rfl⟩
  · rintro ⟨typed, rfl⟩
    exact ⟨s.frame, ⟨typed, rfl⟩, rfl⟩

/-- The slot a reference means and the type of that slot. -/
theorem slotOf_localType {ref : LocalRef} {slot : Slot} {ty : JType}
    (resolved : slotOf ref s = .ok slot u) (typed : onFrame (Frame.localType slot) u = .ok ty t) :
    s = t ∧ localType? s.frame.locals ref = some ty := by
  obtain ⟨slotType, rfl⟩ := localType_eq_ok.mp typed
  cases ref with
  | named name =>
      obtain ⟨⟨index, found, rfl⟩, rfl⟩ := resolveIndex_eq_ok.mp resolved
      exact ⟨rfl, by rw [localType?, found, Option.bind_some, slotType]⟩
  | slot index =>
      obtain ⟨rfl, rfl⟩ := pure_eq_ok.mp resolved
      exact ⟨rfl, slotType⟩

theorem loadSlot_goes {slot : Slot} {ty : JType} (alive : s.frame.alive = true)
    (run : loadSlot ctx slot ty s = .ok () t) :
    ty.isVoid = false ∧ Goes ctx.result types s t (ty :: s.frame.stack) := by
  obtain ⟨_, u, emitted, pushing⟩ := bind_eq_ok.mp run
  exact Goes.produce [] alive rfl (Emits.refl s) rfl
    (Instr.effect?_loadOf (push_emits pushing).2 slot) emitted pushing

theorem load_goes {ref : LocalRef} (alive : s.frame.alive = true)
    (run : load ctx ref s = .ok () t) :
    ∃ ty, localType? s.frame.locals ref = some ty ∧ ty.isVoid = false ∧
      Goes ctx.result types s t (ty :: s.frame.stack) := by
  obtain ⟨slot, _, resolved, run⟩ := bind_eq_ok.mp run
  obtain ⟨ty, _, typed, loaded⟩ := bind_eq_ok.mp run
  obtain ⟨rfl, found⟩ := slotOf_localType resolved typed
  exact ⟨ty, found, loadSlot_goes alive loaded⟩

/-! ## Members -/

theorem checkAccess_eq_ok {member : Member} (run : checkAccess ctx member s = .ok () t) :
    s = t := by
  unfold checkAccess at run
  split at run
  · exact (pure_eq_ok.mp run).2
  · exact (throw_eq_ok.mp run).elim

theorem resolveField_eq_ok {owner : JType} {name : String} {field : Member}
    (run : resolveField ctx owner name s = .ok field t) :
    ctx.table.resolveField owner name = some field ∧ s = t := by
  unfold resolveField at run
  cases found : ctx.table.resolveField owner name with
  | none =>
      simp only [found] at run
      exact (throw_eq_ok.mp run).elim
  | some known =>
      simp only [found] at run
      obtain ⟨_, _, checked, returned⟩ := bind_eq_ok.mp run
      obtain ⟨rfl, rfl⟩ := pure_eq_ok.mp returned
      exact ⟨rfl, checkAccess_eq_ok checked⟩

theorem resolveMethod_eq_ok {owner : JType} {name : String} {args : List JType}
    {isConstructor : Bool} {method : Member}
    (run : resolveMethod ctx owner name args isConstructor s = .ok method t) :
    ctx.table.resolve owner name args isConstructor = some method ∧ s = t := by
  unfold resolveMethod at run
  cases found : ctx.table.resolve owner name args isConstructor with
  | none =>
      simp only [found] at run
      exact (throw_eq_ok.mp run).elim
  | some known =>
      simp only [found] at run
      obtain ⟨_, _, checked, returned⟩ := bind_eq_ok.mp run
      obtain ⟨rfl, rfl⟩ := pure_eq_ok.mp returned
      exact ⟨rfl, checkAccess_eq_ok checked⟩

theorem receiver_eq_ok {use : ReceiverUse} {ty : JType} (run : receiver use s = .ok ty t) :
    (∃ rest, s.frame.stack = ty :: rest) ∧ ty.isReference = true ∧ s = t := by
  obtain ⟨top, _, peeked, checked⟩ := bind_eq_ok.mp run
  obtain ⟨stackEq, rfl⟩ := peek_eq_ok.mp peeked
  obtain ⟨allowed, returned⟩ := check_eq_ok.mp checked
  obtain ⟨rfl, rfl⟩ := pure_eq_ok.mp returned
  refine ⟨stackEq, ?_, rfl⟩
  by_contra notReference
  simp [notReference] at allowed

theorem staticField_eq_ok {owner : JType} {name : String} {field : Member}
    (run : staticField ctx owner name s = .ok field t) :
    ctx.table.resolveField owner name = some field ∧ s = t := by
  obtain ⟨known, _, resolved, checked⟩ := bind_eq_ok.mp run
  obtain ⟨found, rfl⟩ := resolveField_eq_ok resolved
  split at checked
  · obtain ⟨rfl, rfl⟩ := pure_eq_ok.mp checked
    exact ⟨found, rfl⟩
  · exact (throw_eq_ok.mp checked).elim

theorem instanceField_eq_ok {name : String} {field : Member}
    (run : instanceField ctx name s = .ok field t) :
    ∃ owner rest, s.frame.stack = owner :: rest ∧ owner.isReference = true ∧
      ctx.table.resolveField owner name = some field ∧ s = t := by
  obtain ⟨owner, _, received, run⟩ := bind_eq_ok.mp run
  obtain ⟨known, _, resolved, checked⟩ := bind_eq_ok.mp run
  obtain ⟨⟨rest, stackEq⟩, reference, rfl⟩ := receiver_eq_ok received
  obtain ⟨found, rfl⟩ := resolveField_eq_ok resolved
  split at checked
  · exact (throw_eq_ok.mp checked).elim
  · obtain ⟨rfl, rfl⟩ := pure_eq_ok.mp checked
    exact ⟨owner, rest, stackEq, reference, found, rfl⟩

theorem getStatic_goes {owner : JType} {name : String} (alive : s.frame.alive = true)
    (run : getStatic ctx owner name s = .ok () t) :
    ∃ field, ctx.table.resolveField owner name = some field ∧ field.valueType.isVoid = false ∧
      Goes ctx.result types s t (field.valueType :: s.frame.stack) := by
  obtain ⟨field, _, resolved, run⟩ := bind_eq_ok.mp run
  obtain ⟨_, u, emitted, pushing⟩ := bind_eq_ok.mp run
  obtain ⟨found, rfl⟩ := staticField_eq_ok resolved
  have notVoid := (push_emits pushing).2
  exact ⟨field, found, Goes.produce [] alive rfl (Emits.refl _) rfl
    (Member.effect?_getstatic notVoid) emitted pushing⟩

theorem getField_goes {name : String} (alive : s.frame.alive = true)
    (run : getField ctx name s = .ok () t) :
    ∃ owner rest field, s.frame.stack = owner :: rest ∧
      ctx.table.resolveField owner name = some field ∧ field.valueType.isVoid = false ∧
      Goes ctx.result types s t (field.valueType :: rest) := by
  obtain ⟨field, _, resolved, run⟩ := bind_eq_ok.mp run
  obtain ⟨_, v, popping, run⟩ := bind_eq_ok.mp run
  obtain ⟨_, u, emitted, pushing⟩ := bind_eq_ok.mp run
  obtain ⟨owner, rest, stackEq, reference, found, rfl⟩ := instanceField_eq_ok resolved
  obtain ⟨below, stackEq', popped⟩ := pop_emits popping
  obtain ⟨rfl, rfl⟩ := List.cons.inj (stackEq.symm.trans stackEq')
  have notVoid := (push_emits pushing).2
  have effect : (Instr.member .getfield field.ref).effect? =
      some ⟨[owner.category], [field.valueType.category]⟩ := by
    rw [JType.category_of_isReference reference]
    exact Member.effect?_getfield notVoid
  exact ⟨owner, rest, field, stackEq, found,
    Goes.produce [owner] alive stackEq popped rfl effect emitted pushing⟩

end Gen

namespace MemberTable

theorem mem_of_preferred? {table : MemberTable} {applicable : List Member} {member : Member}
    (found : table.preferred? applicable = some member) : member ∈ applicable := by
  unfold preferred? at found
  rcases (Option.orElse_eq_some _ _ _).mp found with best | ⟨-, first⟩
  · exact List.mem_of_find?_eq_some best
  · exact List.mem_of_head? first

/-- A call is resolved to a member with as many parameters as arguments. -/
theorem length_params_of_resolve {table : MemberTable} {owner : JType} {name : String}
    {args : List JType} {isConstructor : Bool} {member : Member}
    (found : table.resolve owner name args isConstructor = some member) :
    member.params.length = args.length := by
  have applicable {strict : Bool} {candidates : List Member}
      (preferred : table.preferred? (candidates.filter (table.isApplicable strict args)) =
        some member) : member.params.length = args.length := by
    have isApplicable := (List.mem_filter.mp (mem_of_preferred? preferred)).2
    simp only [MemberTable.isApplicable, Bool.and_eq_true, decide_eq_true_eq] at isApplicable
    exact isApplicable.1
  simp only [resolve] at found
  rcases (Option.orElse_eq_some _ _ _).mp found with exactly | ⟨-, found⟩
  · have same := List.find?_some exactly
    exact congrArg List.length (by simpa using same)
  · rcases (Option.orElse_eq_some _ _ _).mp found with strict | ⟨-, loose⟩
    · exact applicable strict
    · exact applicable loose

end MemberTable

namespace Gen

variable {ctx : Context} {locals : LocalTable} {types : Position → Option JType}
variable {s t u : State} {code : Gen Unit} {type : Option JType}

/-! ## Calls -/

/-- Operands with their types, in order. -/
abbrev OfOperands (result : JType) (locals : LocalTable) (types : Position → Option JType) :
    List Operand → List (Option JType) → Prop :=
  List.Forall₂ (OfOperand result locals types)

theorem probeAll_goes {args : List Operand} {argTypes : List (Option JType)} {found : List JType}
    (typed : OfOperands ctx.result locals types args argTypes) (ready : Ready locals types s)
    (run : probeAll ctx args s = .ok found t) :
    argTypes = found.map some ∧ Goes ctx.result types s t s.frame.stack := by
  induction typed generalizing s found with
  | nil =>
      obtain ⟨rfl, rfl⟩ := pure_eq_ok.mp run
      exact ⟨rfl, Goes.refl ready.alive⟩
  | cons first _ ih =>
      obtain ⟨ty, u, probed, run⟩ := bind_eq_ok.mp run
      obtain ⟨others, v, rest, returned⟩ := bind_eq_ok.mp run
      obtain ⟨rfl, rfl⟩ := pure_eq_ok.mp returned
      obtain ⟨isType, goes⟩ := first.probe ready probed
      obtain ⟨areTypes, goesOn⟩ := ih (goes.ready ready) rest
      rw [goes.stack_eq] at goesOn
      exact ⟨by simp [isType, areTypes], goes.trans goesOn⟩

/-- Arguments are converted to the parameters' types and left in order. -/
theorem arguments_goes {args : List Operand} {argTypes : List (Option JType)}
    {params : List JType} (typed : OfOperands ctx.result locals types args argTypes)
    (counted : params.length = args.length) (ready : Ready locals types s)
    (run : arguments ctx args params s = .ok () t) :
    (∀ ty ∈ params, ty.isVoid = false) ∧
      Goes ctx.result types s t (params.reverse ++ s.frame.stack) := by
  induction typed generalizing s params with
  | nil =>
      obtain rfl : params = [] := List.eq_nil_of_length_eq_zero counted
      obtain ⟨_, rfl⟩ := pure_eq_ok.mp run
      exact ⟨by simp, Goes.refl ready.alive⟩
  | cons first _ ih =>
      cases params with
      | nil => contradiction
      | cons param params =>
          obtain ⟨_, u, generated, run⟩ := bind_eq_ok.mp run
          obtain ⟨_, v, coerced, rest⟩ := bind_eq_ok.mp run
          obtain ⟨notVoid, goes⟩ := first.evaluates.coerced ready generated coerced
          obtain ⟨values, goesOn⟩ := ih (by simpa using counted) (goes.ready ready) rest
          rw [goes.stack_eq] at goesOn
          refine ⟨by simpa [notVoid] using values, ?_⟩
          simpa using goes.trans goesOn

theorem finishCall_goes {op : Opcode} {method : Member} {hasReceiver : Bool}
    (receiver : List JType) {rest : List JType} (alive : s.frame.alive = true)
    (stackEq : s.frame.stack = method.params.reverse ++ (receiver ++ rest))
    (values : ∀ ty ∈ method.params, ty.isVoid = false)
    (receiverEq : receiver.map JType.category = if hasReceiver then [.reference] else [])
    (isCall : op = .invokestatic ∧ hasReceiver = false ∨
      (op = .invokevirtual ∨ op = .invokespecial ∨ op = .invokeinterface) ∧ hasReceiver = true)
    (run : finishCall ctx op method hasReceiver s = .ok () t) :
    Goes ctx.result types s t (method.results ++ rest) := by
  obtain ⟨_, u, popping, run⟩ := bind_eq_ok.mp run
  obtain ⟨_, v, emitted, pushing⟩ := bind_eq_ok.mp run
  obtain ⟨-, popped⟩ := popN_emits popping
  have counted : method.params.length + (if hasReceiver then 1 else 0) =
      (method.params.reverse ++ receiver).length := by
    have := congrArg List.length receiverEq
    cases hasReceiver <;> simp_all
  rw [counted, stackEq, ← List.append_assoc, List.drop_left] at popped
  have takes : (method.params.reverse ++ receiver).map JType.category =
      (method.params.map JType.category).reverse ++
        if hasReceiver then [.reference] else [] := by
    rw [List.map_append, receiverEq, List.map_reverse]
  have effect : (Instr.member op method.ref).effect? =
      some ⟨(method.params.reverse ++ receiver).map JType.category, method.signature.leaves⟩ := by
    rw [takes]
    exact Member.effect?_call values isCall
  rw [← List.append_assoc] at stackEq
  cases isVoid : method.valueType.isVoid with
  | true =>
      have leaves : method.signature.leaves = [] := by
        simp [Signature.leaves, show method.signature.result.isVoid = true from isVoid]
      simp only [isVoid] at pushing
      obtain ⟨_, rfl⟩ := pure_eq_ok.mp pushing
      rw [leaves] at effect
      simpa [Member.results, isVoid] using
        Goes.consume _ alive stackEq popped rfl effect emitted
  | false =>
      have leaves : method.signature.leaves = [method.valueType.category] := by
        simp [Signature.leaves, Member.valueType,
          show method.signature.result.isVoid = false from isVoid]
      simp only [isVoid] at pushing
      rw [leaves] at effect
      simpa [Member.results, isVoid] using
        (Goes.produce _ alive stackEq popped rfl effect emitted pushing).2

theorem invokeOpcode_isCall (method : Member) :
    invokeOpcode method = .invokevirtual ∨ invokeOpcode method = .invokespecial ∨
      invokeOpcode method = .invokeinterface := by
  unfold invokeOpcode
  split
  · simp
  · split <;> simp

theorem OfOperands.length_eq {args : List Operand} {argTypes : List (Option JType)}
    {found : List JType} (typed : OfOperands ctx.result locals types args argTypes)
    (areTypes : argTypes = found.map some) : found.length = args.length := by
  rw [List.Forall₂.length_eq typed, areTypes, List.length_map]

/-- Arguments and call above the receiver, if there is one. -/
theorem call_goes {op : Opcode} {method : Member} {hasReceiver : Bool} {args : List Operand}
    {argTypes : List (Option JType)} (receiver : List JType) {rest found : List JType}
    {isConstructor : Bool} {owner : JType} {name : String}
    (typed : OfOperands ctx.result locals types args argTypes)
    (areTypes : argTypes = found.map some)
    (resolved : ctx.table.resolve owner name found isConstructor = some method)
    (ready : Ready locals types s) (stackEq : s.frame.stack = receiver ++ rest)
    (receiverEq : receiver.map JType.category = if hasReceiver then [.reference] else [])
    (isCall : op = .invokestatic ∧ hasReceiver = false ∨
      (op = .invokevirtual ∨ op = .invokespecial ∨ op = .invokeinterface) ∧ hasReceiver = true)
    (passed : arguments ctx args method.params s = .ok () u)
    (finished : finishCall ctx op method hasReceiver u = .ok () t) :
    Goes ctx.result types s t (method.results ++ rest) := by
  have counted := (MemberTable.length_params_of_resolve resolved).trans (typed.length_eq areTypes)
  obtain ⟨values, passes⟩ := arguments_goes typed counted ready passed
  rw [stackEq] at passes
  exact passes.trans
    (finishCall_goes receiver passes.alive passes.stack_eq values receiverEq isCall finished)

theorem invoke_goes {name : String} {args : List Operand} {argTypes : List (Option JType)}
    (typed : OfOperands ctx.result locals types args argTypes) (ready : Ready locals types s)
    (run : invoke ctx name args s = .ok () t) :
    ∃ owner rest found method, s.frame.stack = owner :: rest ∧ argTypes = found.map some ∧
      ctx.table.resolve owner name found false = some method ∧
      Goes ctx.result types s t (method.results ++ rest) := by
  obtain ⟨owner, _, received, run⟩ := bind_eq_ok.mp run
  obtain ⟨found, s₁, probed, run⟩ := bind_eq_ok.mp run
  obtain ⟨method, _, resolved, run⟩ := bind_eq_ok.mp run
  obtain ⟨-, run⟩ := check_eq_ok.mp run
  obtain ⟨_, s₂, passed, finished⟩ := bind_eq_ok.mp run
  obtain ⟨⟨rest, stackEq⟩, reference, rfl⟩ := receiver_eq_ok received
  obtain ⟨areTypes, probes⟩ := probeAll_goes typed ready probed
  obtain ⟨isMethod, rfl⟩ := resolveMethod_eq_ok resolved
  have calls := call_goes [owner] typed areTypes isMethod (probes.ready ready)
    (probes.stack_eq.trans stackEq) (by simp [JType.category_of_isReference reference])
    (.inr ⟨invokeOpcode_isCall method, rfl⟩) passed finished
  exact ⟨owner, rest, found, method, stackEq, areTypes, isMethod, probes.trans calls⟩

theorem invokeStatic_goes {owner : JType} {name : String} {args : List Operand}
    {argTypes : List (Option JType)} (typed : OfOperands ctx.result locals types args argTypes)
    (ready : Ready locals types s) (run : invokeStatic ctx owner name args s = .ok () t) :
    ∃ found method, argTypes = found.map some ∧
      ctx.table.resolve owner name found false = some method ∧
      Goes ctx.result types s t (method.results ++ s.frame.stack) := by
  obtain ⟨found, s₁, probed, run⟩ := bind_eq_ok.mp run
  obtain ⟨method, _, resolved, run⟩ := bind_eq_ok.mp run
  obtain ⟨-, run⟩ := check_eq_ok.mp run
  obtain ⟨_, s₂, passed, finished⟩ := bind_eq_ok.mp run
  obtain ⟨areTypes, probes⟩ := probeAll_goes typed ready probed
  obtain ⟨isMethod, rfl⟩ := resolveMethod_eq_ok resolved
  have calls := call_goes [] typed areTypes isMethod (probes.ready ready) probes.stack_eq rfl
    (.inl ⟨rfl, rfl⟩) passed finished
  exact ⟨found, method, areTypes, isMethod, probes.trans calls⟩

theorem construct_goes {ty : JType} {args : List Operand} {argTypes : List (Option JType)}
    (typed : OfOperands ctx.result locals types args argTypes) (ready : Ready locals types s)
    (run : construct ctx ty args s = .ok () t) :
    ∃ found method, argTypes = found.map some ∧
      ctx.table.resolve ty constructorName found true = some method ∧ ty.isVoid = false ∧
      Goes ctx.result types s t (method.results ++ ty :: s.frame.stack) := by
  unfold construct at run
  obtain ⟨instantiable, run⟩ := check_eq_ok.mp run
  obtain ⟨found, s₁, probed, run⟩ := bind_eq_ok.mp run
  obtain ⟨method, _, resolved, run⟩ := bind_eq_ok.mp run
  obtain ⟨_, s₂, created, run⟩ := bind_eq_ok.mp run
  obtain ⟨_, s₃, pushing, run⟩ := bind_eq_ok.mp run
  obtain ⟨_, s₄, copied, run⟩ := bind_eq_ok.mp run
  obtain ⟨_, s₅, pushingCopy, run⟩ := bind_eq_ok.mp run
  obtain ⟨_, s₆, passed, finished⟩ := bind_eq_ok.mp run
  have reference : ty.category = .reference := by
    cases ty <;> simp_all [isInstantiable, JType.category]
  obtain ⟨areTypes, probes⟩ := probeAll_goes typed ready probed
  obtain ⟨isMethod, rfl⟩ := resolveMethod_eq_ok resolved
  obtain ⟨notVoid, creates⟩ : ty.isVoid = false ∧ Goes ctx.result types s₁ s₃ (ty :: s.frame.stack) :=
    Goes.produce [] probes.alive probes.stack_eq (by simpa [probes.stack_eq] using Emits.refl s₁) rfl
      (by rw [reference]; rfl) created pushing
  have copies : Goes ctx.result types s₃ s₅ (ty :: ty :: s.frame.stack) := by
    have wrote := emit_emits rfl copied
    have emits := wrote.trans (push_emits pushingCopy).1
    rw [wrote.stack_eq, creates.stack_eq] at emits
    refine Goes.of_emits creates.alive emits (by decide) ?_ le_rfl
    rw [creates.stack_eq]
    simp only [List.map_cons, reference]
    rfl
  have creates := probes.trans (creates.trans copies)
  have calls := call_goes [ty] typed areTypes isMethod (creates.ready ready) creates.stack_eq
    (by simp [reference]) (.inr ⟨.inr (.inl rfl), rfl⟩) passed finished
  exact ⟨found, method, areTypes, isMethod, notVoid, creates.trans calls⟩

/-! ## Arrays -/

theorem newArray_goes {elem : JType}
    (evaluates : Evaluates ctx.result locals types code type) (ready : Ready locals types s)
    (run : newArray ctx elem code s = .ok () t) :
    Goes ctx.result types s t (.array elem :: s.frame.stack) := by
  unfold newArray at run
  obtain ⟨-, run⟩ := check_eq_ok.mp run
  obtain ⟨_, s₁, valued, run⟩ := bind_eq_ok.mp run
  obtain ⟨_, s₂, coerced, run⟩ := bind_eq_ok.mp run
  obtain ⟨_, s₃, popping, run⟩ := bind_eq_ok.mp run
  obtain ⟨-, sizes⟩ := evaluates.coerced ready valued coerced
  obtain ⟨below, stackEq, popped⟩ := pop_emits popping
  obtain ⟨rfl, rfl⟩ := List.cons.inj (stackEq.symm.trans sizes.stack_eq)
  have creates : Goes ctx.result types s₂ t (.array elem :: s.frame.stack) := by
    split at run <;> obtain ⟨_, s₄, emitted, pushing⟩ := bind_eq_ok.mp run <;>
      exact (Goes.produce [.int] sizes.alive stackEq popped rfl rfl emitted pushing).2
  exact sizes.trans creates

theorem arrayElement_eq_ok {elem : JType} (run : arrayElement s = .ok elem t) :
    ∃ rest, s.frame.stack = .array elem :: rest ∧ s = t := by
  obtain ⟨top, _, peeked, run⟩ := bind_eq_ok.mp run
  obtain ⟨⟨rest, stackEq⟩, rfl⟩ := peek_eq_ok.mp peeked
  cases top with
  | array known =>
      obtain ⟨rfl, rfl⟩ := pure_eq_ok.mp run
      exact ⟨rest, stackEq, rfl⟩
  | _ => exact (throw_eq_ok.mp run).elim

theorem arrayLoad_goes (evaluates : Evaluates ctx.result locals types code type)
    (ready : Ready locals types s) (run : arrayLoad ctx code s = .ok () t) :
    ∃ elem rest, s.frame.stack = .array elem :: rest ∧ elem.isVoid = false ∧
      Goes ctx.result types s t (elem :: rest) := by
  obtain ⟨elem, _, isArray, run⟩ := bind_eq_ok.mp run
  obtain ⟨_, s₁, valued, run⟩ := bind_eq_ok.mp run
  obtain ⟨_, s₂, coerced, run⟩ := bind_eq_ok.mp run
  obtain ⟨_, s₃, popping, run⟩ := bind_eq_ok.mp run
  obtain ⟨_, s₄, emitted, pushing⟩ := bind_eq_ok.mp run
  obtain ⟨rest, stackEq, rfl⟩ := arrayElement_eq_ok isArray
  obtain ⟨-, indexes⟩ := evaluates.coerced ready valued coerced
  have indexed : s₂.frame.stack = [.int, .array elem] ++ rest := by
    rw [indexes.stack_eq, stackEq]
    rfl
  obtain ⟨-, popped⟩ := popN_emits popping
  rw [indexed] at popped
  have notVoid := (push_emits pushing).2
  obtain ⟨plain, effect⟩ := Instr.effect?_arrayLoadOf notVoid
  have loads : Goes ctx.result types s₂ t (elem :: rest) :=
    (Goes.produce [.int, .array elem] indexes.alive indexed popped plain effect emitted pushing).2
  exact ⟨elem, rest, stackEq, notVoid, indexes.trans loads⟩

theorem arrayLength_goes (alive : s.frame.alive = true) (run : arrayLength ctx s = .ok () t) :
    ∃ top rest, s.frame.stack = top :: rest ∧ Goes ctx.result types s t (.int :: rest) := by
  obtain ⟨elem, _, isArray, run⟩ := bind_eq_ok.mp run
  obtain ⟨_, s₁, popping, run⟩ := bind_eq_ok.mp run
  obtain ⟨_, s₂, emitted, pushing⟩ := bind_eq_ok.mp run
  obtain ⟨rest, stackEq, rfl⟩ := arrayElement_eq_ok isArray
  obtain ⟨below, stackEq', popped⟩ := pop_emits popping
  obtain ⟨rfl, rfl⟩ := List.cons.inj (stackEq.symm.trans stackEq')
  exact ⟨_, rest, stackEq, (Goes.produce [.array elem] alive stackEq popped rfl rfl emitted pushing).2⟩

/-! ## Arithmetic and tests -/

theorem operands_goes {left right : JType}
    (evaluates : Evaluates ctx.result locals types code type) (ready : Ready locals types s)
    (run : operands ctx left code right s = .ok () t) :
    ∃ top rest, s.frame.stack = top :: rest ∧
      Goes ctx.result types s t (right :: left :: rest) := by
  obtain ⟨_, s₁, coercedLeft, run⟩ := bind_eq_ok.mp run
  obtain ⟨_, s₂, valued, coerced⟩ := bind_eq_ok.mp run
  obtain ⟨top, rest, stackEq, -, first⟩ := coerceTop_goes ready.alive coercedLeft
  obtain ⟨-, second⟩ := evaluates.coerced (first.ready ready) valued coerced
  rw [first.stack_eq] at second
  exact ⟨top, rest, stackEq, first.trans second⟩

theorem arith_goes {op : ArithOp} {right : Operand}
    (typed : OfOperand ctx.result locals types right type) (ready : Ready locals types s)
    (run : arith ctx op right s = .ok () t) :
    ∃ left rest rightType result converted, s.frame.stack = left :: rest ∧
      type = some rightType ∧ operandTypes? op left rightType = some (result, converted) ∧
      result.isVoid = false ∧ Goes ctx.result types s t (result :: rest) := by
  obtain ⟨left, _, peeked, run⟩ := bind_eq_ok.mp run
  obtain ⟨⟨rest, stackEq⟩, rfl⟩ := peek_eq_ok.mp peeked
  obtain ⟨rightType, s₁, probed, run⟩ := bind_eq_ok.mp run
  obtain ⟨isType, probes⟩ := typed.probe ready probed
  cases found : operandTypes? op left rightType with
  | none =>
      simp only [found] at run
      exact (throw_eq_ok.mp run).elim
  | some pair =>
      obtain ⟨result, converted⟩ := pair
      simp only [found] at run
      obtain ⟨_, s₂, generated, run⟩ := bind_eq_ok.mp run
      obtain ⟨_, s₃, popping, run⟩ := bind_eq_ok.mp run
      obtain ⟨_, s₄, emitted, pushing⟩ := bind_eq_ok.mp run
      obtain ⟨top, below, stackEq', computes⟩ :=
        operands_goes typed.evaluates (probes.ready ready) generated
      rw [probes.stack_eq, stackEq] at stackEq'
      obtain ⟨rfl, rfl⟩ := List.cons.inj stackEq'
      obtain ⟨-, popped⟩ := popN_emits popping
      rw [computes.stack_eq] at popped
      obtain ⟨plain, effect⟩ := Instr.effect?_arith found
      obtain ⟨notVoid, applies⟩ : _ ∧ Goes ctx.result types s₂ t (result :: rest) :=
        Goes.produce [converted, result] computes.alive computes.stack_eq popped plain effect
          emitted pushing
      exact ⟨left, rest, rightType, result, converted, stackEq, isType, found, notVoid,
        probes.trans (computes.trans applies)⟩

theorem negate_goes (alive : s.frame.alive = true) (run : negate ctx s = .ok () t) :
    ∃ top rest p, s.frame.stack = top :: rest ∧ top.unaryPromotion? = some p ∧
      Goes ctx.result types s t (.primitive p :: rest) := by
  obtain ⟨top, _, peeked, run⟩ := bind_eq_ok.mp run
  obtain ⟨⟨rest, stackEq⟩, rfl⟩ := peek_eq_ok.mp peeked
  cases promoted : top.unaryPromotion? with
  | none =>
      simp only [promoted] at run
      exact (throw_eq_ok.mp run).elim
  | some p =>
      simp only [promoted] at run
      obtain ⟨_, s₁, coerced, emitted⟩ := bind_eq_ok.mp run
      obtain ⟨source, below, stackEq', -, first⟩ := coerceTop_goes alive coerced
      obtain ⟨rfl, rfl⟩ := List.cons.inj (stackEq.symm.trans stackEq')
      have stays : Goes ctx.result types s₁ t (.primitive p :: rest) := by
        obtain ⟨q, -, rfl⟩ := Option.map_eq_some_iff.mp promoted
        have wrote := emit_emits (by cases q <;> rfl) emitted
        rw [first.stack_eq] at wrote
        refine Goes.of_emits first.alive wrote (by cases q <;> decide) ?_ le_rfl
        rw [first.stack_eq]
        have effect := Instr.effect?_ineg q
        rw [← Primitive.category_computational q] at effect
        exact afterAll?_singleton effect _
      exact ⟨top, rest, p, stackEq, promoted, first.trans stays⟩

theorem instanceOf_goes {ty : JType} (alive : s.frame.alive = true)
    (run : instanceOf ctx ty s = .ok () t) :
    ∃ top rest, s.frame.stack = top :: rest ∧ Goes ctx.result types s t (.boolean :: rest) := by
  obtain ⟨top, _, peeked, run⟩ := bind_eq_ok.mp run
  obtain ⟨⟨rest, stackEq⟩, rfl⟩ := peek_eq_ok.mp peeked
  obtain ⟨allowed, run⟩ := check_eq_ok.mp run
  obtain ⟨_, s₁, popping, run⟩ := bind_eq_ok.mp run
  obtain ⟨_, s₂, emitted, pushing⟩ := bind_eq_ok.mp run
  obtain ⟨below, stackEq', popped⟩ := pop_emits popping
  obtain ⟨rfl, rfl⟩ := List.cons.inj (stackEq.symm.trans stackEq')
  have reference : top.isReference = true := by
    by_contra notReference
    simp [notReference] at allowed
  have effect : (Instr.type .instanceof ty).effect? =
      some ⟨[top.category], [JType.boolean.category]⟩ := by
    rw [JType.category_of_isReference reference]
    rfl
  exact ⟨top, rest, stackEq, (Goes.produce [top] alive stackEq popped rfl effect emitted pushing).2⟩

end Gen

end JvmAssembler
