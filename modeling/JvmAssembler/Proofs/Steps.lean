import Mathlib
import JvmAssembler.Proofs.Alike

/-!
# The steps of actions

`Made` says of which steps an action is made, down to its use of local
variables.  It relates the action under a context to the same action under a
variant of it; an action is related to itself if the two contexts are the same.
What the fragments and operands inside an action are like is left open: that is
part of a plan, which also says which steps are allowed.

One lemma for each action of the generator says that it is made of steps,
whichever way the variant probes operands, and whatever it does to convert values
and resolve members if that fits the plan.  A property that follows from a plan
with the property itself for fragments holds of all bodies.
-/

namespace JvmAssembler

theorem Gen.constantInstr_noVar (literal : Literal) : (constantInstr literal).isVar = false := by
  cases literal <;> simp only [constantInstr] <;> repeat' split
  all_goals rfl

namespace Opcode

theorem arrayLoadOf_continues (ty : JType) : (arrayLoadOf ty).isTerminal = false :=
  ty.of_typecode (fun code => (iaload + code).isTerminal = false)
    (fun p => by cases p <;> decide) (by decide) (by decide)

theorem arrayStoreOf_continues (ty : JType) : (arrayStoreOf ty).isTerminal = false :=
  ty.of_typecode (fun code => (iastore + code).isTerminal = false)
    (fun p => by cases p <;> decide) (by decide) (by decide)

theorem returnOf_isTerminal {ty : JType} (value : ty.isVoid = false) :
    (returnOf ty).isTerminal = true :=
  JType.of_value value (fun code _ => (ireturn + truncate code).isTerminal = true)
    (fun p => by cases p <;> decide) (by decide)

end Opcode

namespace Frame

variable {α β : Type}

/-- Frame operations that leave local variables alone. -/
structure Local (op : FrameOp α) : Prop where
  locals : ∀ {f a g}, op f = .ok a g → g.locals = f.locals
  maxLocals : ∀ {f a g}, op f = .ok a g → g.maxLocals = f.maxLocals
  scopes : ∀ {f a g}, op f = .ok a g → g.scopes = f.scopes

namespace Local

theorem of_kept {op : FrameOp α}
    (kept : ∀ f a g, op f = .ok a g →
      g.locals = f.locals ∧ g.maxLocals = f.maxLocals ∧ g.scopes = f.scopes) : Local op :=
  ⟨fun run => (kept _ _ _ run).1, fun run => (kept _ _ _ run).2.1, fun run => (kept _ _ _ run).2.2⟩

theorem bind {op : FrameOp α} {next : α → FrameOp β} (first : Local op)
    (second : ∀ a, Local (next a)) : Local (op >>= next) := by
  refine of_kept fun f b g run => ?_
  obtain ⟨a, h, ran, rest⟩ := bind_eq_ok.mp run
  exact ⟨((second a).locals rest).trans (first.locals ran),
    ((second a).maxLocals rest).trans (first.maxLocals ran),
    ((second a).scopes rest).trans (first.scopes ran)⟩

theorem push (ty : JType) : Local (push ty) := by
  refine of_kept fun f a g run => ?_
  obtain ⟨-, rfl⟩ := push_eq_ok.mp run
  exact ⟨rfl, rfl, rfl⟩

theorem pop : Local pop := by
  refine of_kept fun f a g run => ?_
  obtain ⟨rest, -, rfl⟩ := pop_eq_ok.mp run
  exact ⟨rfl, rfl, rfl⟩

theorem popN (n : Nat) : Local (popN n) := by
  refine of_kept fun f a g run => ?_
  obtain ⟨-, -, rfl⟩ := popN_eq_ok.mp run
  exact ⟨rfl, rfl, rfl⟩

theorem peek : Local peek := by
  refine of_kept fun f a g run => ?_
  obtain ⟨-, rfl⟩ := peek_eq_ok.mp run
  exact ⟨rfl, rfl, rfl⟩

theorem replaceTop (ty : JType) : Local (replaceTop ty) :=
  pop.bind fun _ => push ty

theorem merge (label : Label) (shape : List JType) : Local (merge label shape) := by
  refine of_kept fun f a g run => ?_
  obtain ⟨-, shapes, rfl⟩ := merge_eq_ok run
  exact ⟨rfl, rfl, rfl⟩

theorem jumpTo (label : Label) : Local (jumpTo label) :=
  of_kept fun f _ _ run =>
    ⟨(merge label f.stack).locals run, (merge label f.stack).maxLocals run,
      (merge label f.stack).scopes run⟩

theorem markDead : Local markDead := by
  refine of_kept fun f a g run => ?_
  cases run
  exact ⟨rfl, rfl, rfl⟩

theorem place (label : Label) : Local (place label) := by
  refine of_kept fun f a g run => ?_
  rcases place_eq_ok.mp run with ⟨-, merged⟩ | ⟨-, -, rfl⟩ | ⟨-, shape, -, rfl⟩
  · obtain ⟨-, shapes, rfl⟩ := merge_eq_ok merged
    exact ⟨rfl, rfl, rfl⟩
  · exact ⟨rfl, rfl, rfl⟩
  · exact ⟨rfl, rfl, rfl⟩

theorem resolveIndex (name : String) : Local (resolveIndex name) := by
  refine of_kept fun f a g run => ?_
  obtain ⟨rfl, -⟩ := resolveIndex_eq_ok.mp run
  exact ⟨rfl, rfl, rfl⟩

theorem localType (slot : Slot) : Local (localType slot) := by
  refine of_kept fun f a g run => ?_
  obtain ⟨-, rfl⟩ := localType_eq_ok.mp run
  exact ⟨rfl, rfl, rfl⟩

theorem read (look : Frame → α) : Local fun f => .ok (look f) f := by
  refine of_kept fun f a g run => ?_
  cases run
  exact ⟨rfl, rfl, rfl⟩

end Local

end Frame

/-- Steps that not all actions take. -/
inductive StepKind where
  /-- Ends the code that can be reached. -/
  | ends
  /-- Places a label. -/
  | places
  /-- Declares or writes a local variable. -/
  | writes
  /-- Refers to a local variable. -/
  | refers (ref : LocalRef)
  /-- Stores the value that a fragment leaves. -/
  | stores (target : LocalRef) (value : Gen Unit)
  /-- Does any one thing to local variables, however these steps follow each other. -/
  | touches

/-- What the fragments, conditions and operands of two actions are like, and
which steps may be taken.  Some parts are only performed where the position can
be reached; for these `part true` suffices. -/
structure Plan where
  part : Bool → {α : Type} → Gen α → Gen α → Prop
  operand : Gen.Operand → Gen.Operand → Prop
  may : StepKind → Prop

namespace Gen

/-- Some run of the action returns this value. -/
def Returns {α : Type} (x : Gen α) (a : α) : Prop :=
  ∃ s t, x s = .ok a t

/-- The action leaves the position reachable. -/
def KeepsAlive {α : Type} (x : Gen α) : Prop :=
  ∀ ⦃s a t⦄, x s = .ok a t → s.frame.alive = true → t.frame.alive = true

/-- Two actions made of the same steps of a plan, each under its context.  If
`live` is set, they are only performed where the position can be reached;
operands are probed in no other place. -/
inductive Made (ctx ctx' : Context) (plan : Plan) :
    (live : Bool) → {α : Type} → Gen α → Gen α → Prop where
  | pure {live : Bool} {α : Type} (a : α) : Made ctx ctx' plan live (pure a : Gen α) (pure a)
  | throw {live : Bool} {α : Type} (e : Error) :
      Made ctx ctx' plan live (throw e : Gen α) (throw e)
  | seq {live next : Bool} {α β : Type} {x x' : Gen α} {f f' : α → Gen β} :
      Made ctx ctx' plan live x x' → (next = true → live = true ∧ KeepsAlive x) →
      (∀ a, Returns x a → Made ctx ctx' plan next (f a) (f' a)) →
      Made ctx ctx' plan live (x >>= f) (x' >>= f')
  | whenAlive {live : Bool} {x x' : Gen Unit} : Made ctx ctx' plan true x x' →
      Made ctx ctx' plan live (whenAlive x) (whenAlive x')
  | onFrame {live : Bool} {α : Type} {op : FrameOp α} : Frame.Quiet op → Frame.Local op →
      Made ctx ctx' plan live (onFrame op) (onFrame op)
  | emit {live : Bool} {instr : Instr} : instr.isPlain = true → instr.isVar = false →
      Made ctx ctx' plan live (emit ctx instr) (emit ctx' instr)
  | finish {live : Bool} {code : Opcode} : code.isTerminal = true → code ≠ .goto →
      plan.may .ends →
      Made ctx ctx' plan live (emitOp ctx code) (emitOp ctx' code)
  | onLocals {live : Bool} {α : Type} {op : FrameOp α} : plan.may .touches → Frame.Quiet op →
      Made ctx ctx' plan live (onFrame op) (onFrame op)
  | emitVar {live : Bool} (code : Opcode) (slot : Slot) : plan.may .touches →
      Made ctx ctx' plan live (emit ctx (.var code slot)) (emit ctx' (.var code slot))
  | receiver {live : Bool} : ctx.isStatic = false →
      Made ctx ctx' plan live (emit ctx (.var .aload 0)) (emit ctx' (.var .aload 0))
  | newLabel {live : Bool} : Made ctx ctx' plan live newLabel newLabel
  | jump {live : Bool} {code : Opcode} (target : Label) : (code ≠ .goto ∨ plan.may .ends) →
      Made ctx ctx' plan live (jump ctx code target) (jump ctx' code target)
  | place {live : Bool} (label : Label) : plan.may .places →
      Made ctx ctx' plan live (place ctx label) (place ctx' label)
  | part {live : Bool} {α : Type} {x x' : Gen α} : plan.part false x x' →
      Made ctx ctx' plan live x x'
  | reached {α : Type} {x x' : Gen α} : plan.part true x x' → Made ctx ctx' plan true x x'
  | value {live : Bool} {x x' : Gen Unit} : plan.part false x x' →
      Made ctx ctx' plan live (value x) (value x')
  | inScope {live : Bool} {x x' : Gen Unit} : Made ctx ctx' plan live x x' →
      Made ctx ctx' plan live (inScope x) (inScope x')
  | operation {live : Bool} {x x' : Gen Unit} (name : String) : plan.part true x x' →
      Made ctx ctx' plan live (operation name x) (operation name x')
  | probe {operand operand' : Operand} : plan.operand operand operand' →
      Made ctx ctx' plan true (probe ctx operand) (probe ctx' operand')
  | load {live : Bool} (ref : LocalRef) : plan.may (.refers ref) →
      Made ctx ctx' plan live (load ctx ref) (load ctx' ref)
  | store {live : Bool} (target : LocalRef) {x x' : Gen Unit} : plan.may .writes →
      plan.may (.refers target) → plan.may (.stores target x) → plan.part false x x' →
      Made ctx ctx' plan live (store ctx target x) (store ctx' target x')
  | declare {live : Bool} (name : String) (ty : JType) {x x' : Gen Unit} : plan.may .writes →
      plan.part false x x' →
      Made ctx ctx' plan live (declare ctx name ty x) (declare ctx' name ty x')
  | declareUninit {live : Bool} (name : String) (ty : JType) : plan.may .writes →
      Made ctx ctx' plan live (declareUninit name ty) (declareUninit name ty)
  | increment {live : Bool} (target : LocalRef) (step : Int32) : plan.may .writes →
      plan.may (.refers target) →
      Made ctx ctx' plan live (increment ctx target step) (increment ctx' target step)

namespace KeepsAlive

theorem onFrame {α : Type} {op : FrameOp α} (quiet : Frame.Quiet op) : KeepsAlive (onFrame op) := by
  intro s a t run alive
  obtain ⟨frame, ran, rfl⟩ := onFrame_eq_ok.mp run
  exact (quiet.alive ran).trans alive

theorem newLabel : KeepsAlive newLabel := by
  intro s a t run alive
  obtain ⟨-, rfl⟩ := newLabel_eq_ok.mp run
  exact alive

theorem place (ctx : Context) (label : Label) : KeepsAlive (place ctx label) :=
  fun _ _ _ run alive => (place_marks_of_alive alive run).2.2.1

theorem probe {ctx : Context} (operand : Operand) : KeepsAlive (probe ctx operand) := by
  intro s a t run alive
  obtain ⟨frame, -⟩ := probe_ok run
  rw [frame]
  exact alive

theorem receiver (use : ReceiverUse) : KeepsAlive (receiver use) := by
  intro s a t run alive
  obtain ⟨ty, u, peeked, run⟩ := bind_eq_ok.mp run
  obtain ⟨-, rfl⟩ := peek_eq_ok.mp peeked
  obtain ⟨-, run⟩ := check_eq_ok.mp run
  obtain ⟨-, rfl⟩ := pure_eq_ok.mp run
  exact alive

end KeepsAlive

theorem throw_bind {α : Type} (e : Error) (f : Unit → Gen α) :
    (throw e : Gen Unit) >>= f = throw e :=
  rfl

namespace Made

variable {α β : Type} {ctx ctx' : Context} {plan : Plan} {live : Bool}

/-! ## Sequences and choices -/

theorem bind {x x' : Gen α} {f f' : α → Gen β} (first : Made ctx ctx' plan live x x')
    (second : ∀ a, Made ctx ctx' plan false (f a) (f' a)) :
    Made ctx ctx' plan live (x >>= f) (x' >>= f') :=
  seq first (by simp) fun a _ => second a

/-- Where the first action leaves the position reachable, operands may be probed
after it. -/
theorem andThen {x x' : Gen α} {f f' : α → Gen β} (keeps : KeepsAlive x)
    (first : Made ctx ctx' plan true x x')
    (second : ∀ a, Made ctx ctx' plan true (f a) (f' a)) :
    Made ctx ctx' plan true (x >>= f) (x' >>= f') :=
  seq first (fun _ => ⟨rfl, keeps⟩) fun a _ => second a

theorem ite {condition : Prop} [Decidable condition] {x x' y y' : Gen α}
    (first : Made ctx ctx' plan live x x') (second : Made ctx ctx' plan live y y') :
    Made ctx ctx' plan live (if condition then x else y) (if condition then x' else y') := by
  split
  · exact first
  · exact second

/-- Actions that go on only if a check does not fail. -/
theorem check {condition : Prop} [Decidable condition] {e : Error} {next next' : Unit → Gen α}
    (made : ¬condition → Made ctx ctx' plan live (next ()) (next' ())) :
    Made ctx ctx' plan live
      (if condition then (MonadExcept.throw e : Gen Unit) >>= next else next ())
      (if condition then (MonadExcept.throw e : Gen Unit) >>= next' else next' ()) := by
  split
  · rw [throw_bind, throw_bind]
    exact throw e
  · rename_i holds
    exact made holds

/-! ## Instructions and operands -/

theorem push (ty : JType) : Made ctx ctx' plan live (push ty) (push ty) :=
  onFrame (.push ty) (.push ty)

theorem pop : Made ctx ctx' plan live pop pop :=
  onFrame .pop .pop

theorem popN (n : Nat) : Made ctx ctx' plan live (popN n) (popN n) :=
  onFrame (.popN n) (.popN n)

theorem peek : Made ctx ctx' plan live peek peek :=
  onFrame .peek .peek

theorem emitOp {code : Opcode} (continues : code.isTerminal = false) :
    Made ctx ctx' plan live (emitOp ctx code) (emitOp ctx' code) :=
  emit (by simpa [Instr.isPlain] using continues) rfl

theorem emitAll {code : List Instr} (plain : ∀ instr ∈ code, instr.isPlain = true)
    (noVar : ∀ instr ∈ code, instr.isVar = false) :
    Made ctx ctx' plan live (emitAll ctx code) (emitAll ctx' code) := by
  induction code generalizing live with
  | nil => exact pure ()
  | cons instr rest ih =>
      exact bind (emit (plain instr (by simp)) (noVar instr (by simp))) fun _ =>
        ih (fun other mem => plain other (by simp [mem])) fun other mem =>
          noVar other (by simp [mem])

/-- Operands that fit the plan, and so does their code. -/
structure OfOperand (plan : Plan) (operand operand' : Operand) : Prop where
  probed : plan.operand operand operand'
  code : plan.part false operand.code operand'.code

theorem probeAll {args args' : List Operand} (fits : List.Forall₂ (OfOperand plan) args args') :
    Made ctx ctx' plan true (probeAll ctx args) (probeAll ctx' args') := by
  induction fits with
  | nil => exact pure []
  | cons first _ ih =>
      exact andThen (.probe _) (probe first.probed) fun _ => bind ih fun _ => pure _

/-! ## Constants and operations on the top -/

theorem constant (literal : Literal) :
    Made ctx ctx' plan live (constant ctx literal) (constant ctx' literal) :=
  bind (emit (Instr.effect?_constantInstr literal).1 (constantInstr_noVar literal)) fun _ =>
    push _

theorem source {code : Opcode} (continues : code.isTerminal = false) (ty : JType) :
    Made ctx ctx' plan live (source ctx code ty) (source ctx' code ty) :=
  bind (emitOp continues) fun _ => push ty

theorem boolean (value : Bool) :
    Made ctx ctx' plan live (boolean ctx value) (boolean ctx' value) :=
  source (by cases value <;> decide) _

theorem receiverType (use : ReceiverUse) :
    Made ctx ctx' plan live (Gen.receiver use) (Gen.receiver use) :=
  bind peek fun _ => check fun _ => pure _

theorem finishCall (code : Opcode) (method : Member) (hasReceiver : Bool) :
    Made ctx ctx' plan live (finishCall ctx code method hasReceiver)
      (finishCall ctx' code method hasReceiver) :=
  bind (popN _) fun _ => bind (emit rfl rfl) fun _ => ite (push _) (pure ())

theorem arrayElement : Made ctx ctx' plan live arrayElement arrayElement := by
  refine bind peek fun ty => ?_
  cases ty.element? with
  | some elem => exact pure elem
  | none => exact throw _

theorem arrayLength : Made ctx ctx' plan live (arrayLength ctx) (arrayLength ctx') :=
  bind arrayElement fun _ => bind pop fun _ => bind (emitOp (by decide)) fun _ => push _

theorem instanceOf (ty : JType) :
    Made ctx ctx' plan live (instanceOf ctx ty) (instanceOf ctx' ty) :=
  bind peek fun _ => check fun _ => bind pop fun _ => bind (emit rfl rfl) fun _ => push _

theorem discard : Made ctx ctx' plan live (discard ctx) (discard ctx') :=
  bind pop fun ty => emitOp (by cases ty.isWide <;> decide)

/-! ## Local variables -/

section Touches

variable (touches : plan.may .touches)

include touches

theorem slotOf (ref : LocalRef) : Made ctx ctx' plan live (slotOf ref) (slotOf ref) := by
  cases ref with
  | named name => exact onLocals touches (.resolveIndex name)
  | slot index => exact pure index

theorem loadSlot (slot : Slot) (ty : JType) :
    Made ctx ctx' plan live (loadSlot ctx slot ty) (loadSlot ctx' slot ty) :=
  bind (emitVar _ slot touches) fun _ => push ty

theorem storeSlot (slot : Slot) :
    Made ctx ctx' plan live (storeSlot ctx slot) (storeSlot ctx' slot) :=
  bind pop fun _ => emitVar _ slot touches

theorem loadSteps (ref : LocalRef) :
    Made ctx ctx' plan live (Gen.load ctx ref) (Gen.load ctx' ref) :=
  bind (slotOf touches ref) fun slot => bind (onLocals touches (.localType slot)) fun ty =>
    loadSlot touches slot ty

theorem storeTarget (ref : LocalRef) :
    Made ctx ctx' plan live (storeTarget ref) (storeTarget ref) := by
  cases ref with
  | named name =>
      exact bind (onLocals touches (.resolveIndex name)) fun slot =>
        bind (onLocals touches (.localType slot)) fun _ => pure _
  | slot index =>
      exact onLocals touches (.read fun _ _ _ _ _ => rfl :
        Frame.Quiet fun f => .ok (index, f.slotType? index.toNat) f)

theorem declareUninitSteps (name : String) (ty : JType) :
    Made ctx ctx' plan live (Gen.declareUninit name ty) (Gen.declareUninit name ty) :=
  bind (onLocals touches (.addLocal (some name) ty)) fun _ => pure ()

end Touches

/-! ## Branches -/

/-- Branches that fit the plan for every sense and target, where the position
can be reached. -/
def OfBranch (plan : Plan) (branch branch' : Branch) : Prop :=
  ∀ sense target, plan.part true (branch sense target) (branch' sense target)

theorem constBranch (ends : plan.may .ends) (value sense : Bool) (target : Label) :
    Made ctx ctx' plan live (constBranch ctx value sense target)
      (constBranch ctx' value sense target) :=
  ite (jump target (.inr ends)) (pure ())

theorem nullBranch (wanted : Bool) {operand operand' : Operand}
    (fits : OfOperand plan operand operand') (sense : Bool) (target : Label) :
    Made ctx ctx' plan true (nullBranch ctx wanted operand sense target)
      (nullBranch ctx' wanted operand' sense target) :=
  bind (probe fits.probed) fun _ => check fun _ => bind (value fits.code) fun _ =>
    bind pop fun _ => jump target (.inl (by split <;> decide))

theorem numericBranch (ty : Primitive) (op : RelOp) (nan : Bool) (target : Label) :
    Made ctx ctx' plan live (numericBranch ctx ty op nan target)
      (numericBranch ctx' ty op nan target) := by
  refine bind (popN 2) fun _ => ?_
  cases found : comparison? ty op nan with
  | some code =>
      exact bind (emit (Instr.effect?_comparison found).1 rfl) fun _ =>
        jump target (.inl (by cases op <;> decide))
  | none => exact jump target (.inl (by cases op <;> decide))

theorem identityBranch (equal : Bool) (target : Label) :
    Made ctx ctx' plan live (identityBranch ctx equal target) (identityBranch ctx' equal target) :=
  bind (popN 2) fun _ => jump target (.inl (by split <;> decide))

/-! ## Junctions and statements -/

theorem untilDead {actions actions' : List (Gen Unit)}
    (all : List.Forall₂ (plan.part true) actions actions') :
    Made ctx ctx' plan true (untilDead actions) (untilDead actions') := by
  induction all with
  | nil => exact pure ()
  | cons first _ ih => exact bind (reached first) fun _ => whenAlive ih

section Junctions

variable {parts parts' : List Branch} (all : List.Forall₂ (OfBranch plan) parts parts')

include all

theorem eachBranch (sense : Bool) (target : Label) :
    Made ctx ctx' plan true (eachBranch parts sense target) (eachBranch parts' sense target) := by
  refine untilDead ?_
  rw [List.forall₂_map_left_iff, List.forall₂_map_right_iff]
  exact all.imp fun _ _ part => part sense target

theorem lastBranch (ends : plan.may .ends) (places : plan.may .places) (sense : Bool)
    (target : Label) :
    Made ctx ctx' plan true (lastBranch ctx parts sense target)
      (lastBranch ctx' parts' sense target) := by
  have lasts := AlikeBranch.forall₂_getLast? all
  unfold Gen.lastBranch
  generalize parts.getLast? = last at lasts ⊢
  generalize parts'.getLast? = last' at lasts ⊢
  cases lasts with
  | none => exact jump target (.inr ends)
  | some fits =>
      exact andThen .newLabel newLabel fun skip =>
        bind (eachBranch (AlikeBranch.forall₂_dropLast all) (!sense) skip) fun _ =>
          bind (whenAlive (reached (fits sense target))) fun _ => place skip places

theorem conjBranch (ends : plan.may .ends) (places : plan.may .places) (sense : Bool)
    (target : Label) :
    Made ctx ctx' plan true (conjBranch ctx parts sense target)
      (conjBranch ctx' parts' sense target) := by
  cases sense with
  | true => exact lastBranch all ends places true target
  | false => exact eachBranch all false target

theorem disjBranch (ends : plan.may .ends) (places : plan.may .places) (sense : Bool)
    (target : Label) :
    Made ctx ctx' plan true (disjBranch ctx parts sense target)
      (disjBranch ctx' parts' sense target) := by
  cases sense with
  | true => exact eachBranch all true target
  | false => exact lastBranch all ends places false target

end Junctions

section Statements

variable {cond cond' : Branch} (condition : OfBranch plan cond cond')
variable (ends : plan.may .ends) (places : plan.may .places)

include condition places

theorem ifThen {body body' : Gen Unit} (fits : plan.part false body body') :
    Made ctx ctx' plan true (ifThen ctx cond body) (ifThen ctx' cond' body') :=
  andThen .newLabel newLabel fun stop => bind (reached (condition false stop)) fun _ =>
    bind (whenAlive (inScope (part fits))) fun _ => place stop places

include ends

theorem ifElse {body body' otherwise otherwise' : Gen Unit} (first : plan.part false body body')
    (second : plan.part false otherwise otherwise') :
    Made ctx ctx' plan true (ifElse ctx cond body otherwise) (ifElse ctx' cond' body' otherwise') :=
  andThen .newLabel newLabel fun stop => andThen .newLabel newLabel fun elseLabel =>
    bind (reached (condition false elseLabel)) fun _ =>
      bind (whenAlive (inScope (part first))) fun _ =>
        bind (whenAlive (jump stop (.inr ends))) fun _ => bind (place elseLabel places) fun _ =>
          bind (whenAlive (inScope (part second))) fun _ => place stop places

theorem whileLoop {body body' : Gen Unit} (fits : plan.part false body body') :
    Made ctx ctx' plan true (whileLoop ctx cond body) (whileLoop ctx' cond' body') :=
  andThen .newLabel newLabel fun start => andThen .newLabel newLabel fun stop =>
    andThen (.place ctx start) (place start places) fun _ =>
    bind (reached (condition false stop)) fun _ =>
      bind (whenAlive (bind (inScope (part fits)) fun _ =>
        whenAlive (jump start (.inr ends)))) fun _ => place stop places

theorem condValue : Made ctx ctx' plan true (condValue ctx cond) (condValue ctx' cond') :=
  andThen .newLabel newLabel fun whenFalse => andThen .newLabel newLabel fun stop =>
    bind (reached (condition false whenFalse)) fun _ =>
      bind (whenAlive (bind (boolean true) fun _ => jump stop (.inr ends))) fun _ =>
        bind (place whenFalse places) fun _ =>
          bind (whenAlive (boolean false)) fun _ => place stop places

end Statements

/-! ## Variants of a context -/

theorem convertTop (probing : Probing) (source target : JType) :
    Made ctx { ctx with probing } plan live
      (convertTop ctx source target (conversion ctx source target))
      (convertTop { ctx with probing } source target (conversion ctx source target)) := by
  have same : conversion { ctx with probing } source target = conversion ctx source target := rfl
  have converts : Made ctx { ctx with probing } plan live
      (do Gen.emitAll ctx ((conversion ctx source target).instrs source target)
          Gen.onFrame (Frame.replaceTop target))
      (do Gen.emitAll { ctx with probing } ((conversion ctx source target).instrs source target)
          Gen.onFrame (Frame.replaceTop target)) :=
    bind (emitAll (Conversion.instrs_plain _ source target)
      (Conversion.instrs_noVar _ source target)) fun _ =>
        onFrame (.replaceTop target) (.replaceTop target)
  rw [convertTop_conversion, ← same, convertTop_conversion, same]
  exact ite (pure ()) (ite (throw _) converts)

theorem checkAccess (probing : Probing) (member : Member) :
    Made ctx { ctx with probing } plan live (checkAccess ctx member)
      (checkAccess { ctx with probing } member) :=
  ite (pure ()) (throw _)

end Made

/-- The type that both arms of a conditional agree on, under the configured
conversions. -/
def commonType (ctx : Context) (thenType elseType : JType) : Gen JType :=
  match JType.common ctx.table ctx.config.narrowReinterpretation thenType elseType with
  | .error error => throw error
  | .ok ty => pure ty

theorem conditional_eq (ctx : Context) (cond : Branch) (thenArm elseArm : Operand) :
    conditional ctx cond thenArm elseArm = (do
      let thenType ← probe ctx thenArm
      let elseType ← probe ctx elseArm
      let ty ← commonType ctx thenType elseType
      let elseLabel ← newLabel
      let stop ← newLabel
      cond false elseLabel
      whenAlive do
        arm ctx ty thenArm.code
        jump ctx .goto stop
      place ctx elseLabel
      whenAlive (arm ctx ty elseArm.code)
      place ctx stop) := by
  refine bind_congr fun thenType => bind_congr fun elseType => ?_
  unfold commonType
  cases JType.common ctx.table ctx.config.narrowReinterpretation thenType elseType <;> rfl

theorem KeepsAlive.commonType (ctx : Context) (thenType elseType : JType) :
    KeepsAlive (commonType ctx thenType elseType) := by
  intro s ty t run alive
  unfold Gen.commonType at run
  cases found : JType.common ctx.table ctx.config.narrowReinterpretation thenType elseType with
  | error e =>
      rw [found] at run
      cases run
  | ok ty =>
      rw [found] at run
      cases run
      exact alive

end Gen

open Gen

/-- The second context differs from the first at most in how it probes operands,
converts values and resolves members; the last two fit the plan. -/
class Context.Variant (ctx ctx' : Context) (plan : Plan) : Prop where
  isSubtype : ctx'.table.isSubtype = ctx.table.isSubtype
  superclass : ctx'.this.superclass = ctx.this.superclass
  isStatic : ctx'.isStatic = ctx.isStatic
  result : ctx'.result = ctx.result
  coerceTop {live : Bool} (target : JType) :
    Made ctx ctx' plan live (coerceTop ctx target) (coerceTop ctx' target)
  castTop {live : Bool} (target : JType) :
    Made ctx ctx' plan live (castTop ctx target) (castTop ctx' target)
  resolveField {live : Bool} (owner : JType) (name : String) :
    Made ctx ctx' plan live (resolveField ctx owner name) (resolveField ctx' owner name)
  resolveMethod {live : Bool} (owner : JType) (name : String) (args : List JType)
      (isConstructor : Bool) :
    Made ctx ctx' plan live (resolveMethod ctx owner name args isConstructor)
      (resolveMethod ctx' owner name args isConstructor)
  commonType {live : Bool} (first second : JType) :
    Made ctx ctx' plan live (commonType ctx first second) (commonType ctx' first second)

instance Context.Variant.of_probing (ctx : Context) (probing : Probing) (plan : Plan) :
    ctx.Variant { ctx with probing } plan where
  isSubtype := rfl
  superclass := rfl
  isStatic := rfl
  result := rfl
  coerceTop target := .bind .peek fun source => .ite (.convertTop probing source target) (.throw _)
  castTop target := by
    rw [castTop_eq, castTop_eq]
    exact .bind .peek fun source => .convertTop probing source target
  resolveField owner name := by
    unfold Gen.resolveField
    dsimp only
    split
    · exact .throw _
    · exact .bind (.checkAccess probing _) fun _ => .pure _
  resolveMethod owner name args isConstructor := by
    unfold Gen.resolveMethod
    dsimp only
    split
    · exact .throw _
    · exact .bind (.checkAccess probing _) fun _ => .pure _
  commonType first second := by
    unfold Gen.commonType
    dsimp only
    split
    · exact .throw _
    · exact .pure _

instance (ctx : Context) (plan : Plan) : ctx.Variant ctx plan :=
  .of_probing ctx ctx.probing plan

namespace Gen.Made

variable {ctx ctx' : Context} {plan : Plan} {live : Bool} [variant : ctx.Variant ctx' plan]

/-! ## Members and calls -/

theorem coerceTop (target : JType) :
    Made ctx ctx' plan live (coerceTop ctx target) (coerceTop ctx' target) :=
  variant.coerceTop target

theorem castTop (target : JType) :
    Made ctx ctx' plan live (castTop ctx target) (castTop ctx' target) :=
  variant.castTop target

theorem receiverLoad : Made ctx ctx' plan live (receiverLoad ctx) (receiverLoad ctx') := by
  unfold Gen.receiverLoad
  rw [variant.isStatic]
  exact check fun instance_ => bind (receiver (by simpa using instance_)) fun _ => push _

theorem staticField (owner : JType) (name : String) :
    Made ctx ctx' plan live (staticField ctx owner name) (staticField ctx' owner name) :=
  bind (variant.resolveField owner name) fun _ => ite (pure _) (throw _)

theorem instanceField (name : String) :
    Made ctx ctx' plan live (instanceField ctx name) (instanceField ctx' name) :=
  bind (receiverType _) fun owner => bind (variant.resolveField owner name) fun _ =>
    ite (throw _) (pure _)

theorem getStatic (owner : JType) (name : String) :
    Made ctx ctx' plan live (getStatic ctx owner name) (getStatic ctx' owner name) :=
  bind (staticField owner name) fun _ => bind (emit rfl rfl) fun _ => push _

theorem putStatic (owner : JType) (name : String) {code code' : Gen Unit}
    (part : plan.part false code code') :
    Made ctx ctx' plan live (putStatic ctx owner name code) (putStatic ctx' owner name code') :=
  bind (staticField owner name) fun _ => bind (value part) fun _ =>
    bind (coerceTop _) fun _ => bind pop fun _ => emit rfl rfl

theorem getField (name : String) :
    Made ctx ctx' plan live (getField ctx name) (getField ctx' name) :=
  bind (instanceField name) fun _ => bind pop fun _ => bind (emit rfl rfl) fun _ => push _

theorem putField (name : String) {code code' : Gen Unit} (part : plan.part false code code') :
    Made ctx ctx' plan live (putField ctx name code) (putField ctx' name code') :=
  bind (instanceField name) fun _ => bind (value part) fun _ =>
    bind (coerceTop _) fun _ => bind (popN 2) fun _ => emit rfl rfl

section Calls

variable {args args' : List Operand} (fits : List.Forall₂ (OfOperand plan) args args')

include fits

theorem arguments (params : List JType) :
    Made ctx ctx' plan live (arguments ctx args params) (arguments ctx' args' params) := by
  induction fits generalizing live params with
  | nil => exact pure ()
  | cons first _ ih =>
      cases params with
      | nil => exact pure ()
      | cons param params =>
          exact bind (value first.code) fun _ => bind (coerceTop param) fun _ => ih params

theorem invoke (name : String) :
    Made ctx ctx' plan true (invoke ctx name args) (invoke ctx' name args') :=
  andThen (.receiver _) (receiverType _) fun owner => bind (probeAll fits) fun types =>
    bind (variant.resolveMethod owner name types false) fun method =>
      check fun _ => bind (arguments fits _) fun _ => finishCall _ method true

theorem invokeStatic (owner : JType) (name : String) :
    Made ctx ctx' plan true (invokeStatic ctx owner name args)
      (invokeStatic ctx' owner name args') :=
  bind (probeAll fits) fun types =>
    bind (variant.resolveMethod owner name types false) fun method =>
      check fun _ => bind (arguments fits _) fun _ => finishCall _ method false

theorem construct (ty : JType) :
    Made ctx ctx' plan true (construct ctx ty args) (construct ctx' ty args') := by
  unfold Gen.construct
  exact check fun _ => bind (probeAll fits) fun types =>
    bind (variant.resolveMethod ty _ types true) fun ctor => bind (emit rfl rfl) fun _ =>
      bind (push ty) fun _ => bind (emitOp (by decide)) fun _ => bind (push ty) fun _ =>
        bind (arguments fits _) fun _ => finishCall _ ctor true

theorem superInit : Made ctx ctx' plan true (superInit ctx args) (superInit ctx' args') := by
  unfold Gen.superInit
  rw [variant.isStatic, variant.superclass]
  exact check fun notStatic => bind (probeAll fits) fun types =>
    bind (variant.resolveMethod _ _ types true) fun ctor =>
      bind (receiver (by simpa using notStatic)) fun _ => bind (push _) fun _ =>
        bind (arguments fits _) fun _ => finishCall _ ctor true

end Calls

/-! ## Arrays and arithmetic -/

theorem newArray (elem : JType) {length length' : Gen Unit}
    (part : plan.part false length length') :
    Made ctx ctx' plan live (newArray ctx elem length) (newArray ctx' elem length') := by
  unfold Gen.newArray
  refine check fun _ => bind (value part) fun _ => bind (coerceTop _) fun _ => bind pop fun _ => ?_
  cases elem with
  | primitive p => exact bind (emit rfl rfl) fun _ => push _
  | _ => exact bind (emit rfl rfl) fun _ => push _

theorem arrayLoad {index index' : Gen Unit} (part : plan.part false index index') :
    Made ctx ctx' plan live (arrayLoad ctx index) (arrayLoad ctx' index') :=
  bind arrayElement fun elem => bind (value part) fun _ => bind (coerceTop _) fun _ =>
    bind (popN 2) fun _ => bind (emitOp (Opcode.arrayLoadOf_continues elem)) fun _ => push _

theorem arrayStore {index index' code code' : Gen Unit} (first : plan.part false index index')
    (second : plan.part false code code') :
    Made ctx ctx' plan live (arrayStore ctx index code) (arrayStore ctx' index' code') :=
  bind arrayElement fun elem => bind (value first) fun _ => bind (coerceTop _) fun _ =>
    bind (value second) fun _ => bind (coerceTop _) fun _ => bind (popN 3) fun _ =>
      emitOp (Opcode.arrayStoreOf_continues elem)

theorem operands (left right : JType) {code code' : Gen Unit} (part : plan.part false code code') :
    Made ctx ctx' plan live (operands ctx left code right) (operands ctx' left code' right) :=
  bind (coerceTop left) fun _ => bind (value part) fun _ => coerceTop right

theorem arith (op : ArithOp) {right right' : Operand} (fits : OfOperand plan right right') :
    Made ctx ctx' plan true (arith ctx op right) (arith ctx' op right') := by
  refine andThen (.onFrame .peek) peek fun leftType => bind (probe fits.probed) fun rightType => ?_
  cases found : operandTypes? op leftType rightType with
  | none => exact throw _
  | some types =>
      obtain ⟨result, converted⟩ := types
      exact bind (operands result converted fits.code) fun _ => bind (popN 2) fun _ =>
        bind (emit (Instr.effect?_arith found).1 rfl) fun _ => push result

theorem negate : Made ctx ctx' plan live (negate ctx) (negate ctx') := by
  refine bind peek fun ty => ?_
  cases ty.unaryPromotion? with
  | none => exact throw _
  | some p => exact bind (coerceTop _) fun _ => emitOp (by cases p <;> decide)

/-! ## Local variables step by step -/

section Touches

variable (touches : plan.may .touches)

include touches

theorem storeSteps (target : LocalRef) {init init' : Gen Unit} (part : plan.part false init init') :
    Made ctx ctx' plan live (Gen.store ctx target init) (Gen.store ctx' target init') := by
  refine bind (storeTarget touches target) fun found => bind (value part) fun ty => ?_
  obtain ⟨slot, declared⟩ := found
  cases declared with
  | some declared => exact bind (coerceTop declared) fun _ => storeSlot touches slot
  | none => exact bind (onLocals touches (.setLocal slot ty)) fun _ => storeSlot touches slot

theorem declareSteps (name : String) (ty : JType) {init init' : Gen Unit}
    (part : plan.part false init init') :
    Made ctx ctx' plan live (Gen.declare ctx name ty init) (Gen.declare ctx' name ty init') :=
  bind (value part) fun _ => bind (coerceTop ty) fun _ =>
    bind (onLocals touches (.addLocal (some name) ty)) fun slot => storeSlot touches slot

theorem incrementSteps (target : LocalRef) (step : Int32) :
    Made ctx ctx' plan live (Gen.increment ctx target step) (Gen.increment ctx' target step) := by
  refine bind (slotOf touches target) fun slot =>
    bind (onLocals touches (.localType slot)) fun ty => ?_
  cases ty.asPrimitive?.filter Primitive.isNumeric with
  | none => exact throw _
  | some p =>
      exact bind (loadSlot touches slot ty) fun _ => bind (constant _) fun _ =>
        bind (popN 2) fun _ => bind (emitOp (by cases p <;> decide)) fun _ => bind (push _) fun _ =>
          bind (castTop ty) fun _ => storeSlot touches slot

end Touches

/-! ## Ends -/

section Ends

variable (ends : plan.may .ends)

include ends

theorem returnValue : Made ctx ctx' plan live (returnValue ctx) (returnValue ctx') := by
  unfold Gen.returnValue
  rw [variant.result]
  refine check fun hasValue => bind (coerceTop _) fun _ => bind pop fun _ => ?_
  exact finish (Opcode.returnOf_isTerminal (by simpa using hasValue))
    (Opcode.returnOf_ne_goto _) ends

theorem returnVoid : Made ctx ctx' plan live (returnVoid ctx) (returnVoid ctx') := by
  unfold Gen.returnVoid
  rw [variant.result]
  exact check fun _ => finish (by decide) (by decide) ends

theorem raise : Made ctx ctx' plan live (raise ctx) (raise ctx') := by
  unfold Gen.raise
  rw [variant.isSubtype]
  exact bind peek fun _ => check fun _ => bind pop fun _ => finish (by decide) (by decide) ends

end Ends

/-! ## Conversions of tested values -/

theorem truthBranch (wanted : Bool) {code code' : Gen Unit} (part : plan.part false code code')
    (sense : Bool) (target : Label) :
    Made ctx ctx' plan live (truthBranch ctx wanted code sense target)
      (truthBranch ctx' wanted code' sense target) :=
  bind (value part) fun _ => bind (coerceTop _) fun _ => bind pop fun _ =>
    jump target (.inl (by split <;> decide))

section Compare

variable {left left' right right' : Operand} (first : OfOperand plan left left')
variable (second : OfOperand plan right right')

include first second

theorem comparands (ty : JType) :
    Made ctx ctx' plan live (comparands ctx left right ty) (comparands ctx' left' right' ty) :=
  bind (value first.code) fun _ => bind (coerceTop ty) fun _ =>
    bind (value second.code) fun _ => coerceTop ty

theorem compareBranch (op : RelOp) (nan sense : Bool) (target : Label) :
    Made ctx ctx' plan true (compareBranch ctx op left right nan sense target)
      (compareBranch ctx' op left' right' nan sense target) := by
  refine andThen (.probe _) (probe first.probed) fun leftType =>
    bind (probe second.probed) fun rightType => check fun _ => check fun _ => ite ?_ (ite ?_ ?_)
  · exact bind (value first.code) fun _ => bind (value second.code) fun _ =>
      identityBranch _ target
  · exact check fun _ => bind (comparands first second _) fun _ => bind (popN 2) fun _ =>
      jump target (.inl (by split <;> cases op <;> decide))
  · cases JType.binaryPromotion? leftType rightType with
    | some promoted =>
        exact bind (comparands first second _) fun _ => numericBranch promoted _ _ target
    | none =>
        dsimp only
        split
        · exact throw _
        · exact bind (value first.code) fun _ => bind (value second.code) fun _ =>
            bind (coerceTop _) fun _ => numericBranch _ _ _ target
        · exact ite (bind (value first.code) fun _ => bind (value second.code) fun _ =>
            bind (coerceTop _) fun _ => identityBranch _ target) (throw _)
        · exact throw _

end Compare

theorem conditional {cond cond' : Branch} (condition : OfBranch plan cond cond')
    (ends : plan.may .ends) (places : plan.may .places)
    {thenArm thenArm' elseArm elseArm' : Operand}
    (first : OfOperand plan thenArm thenArm') (second : OfOperand plan elseArm elseArm') :
    Made ctx ctx' plan true (conditional ctx cond thenArm elseArm)
      (conditional ctx' cond' thenArm' elseArm') := by
  have arm {code code' : Gen Unit} (ty : JType) (fits : plan.part false code code') :
      Made ctx ctx' plan true (Gen.arm ctx ty code) (Gen.arm ctx' ty code') :=
    inScope (bind (value fits) fun _ => coerceTop ty)
  rw [conditional_eq, conditional_eq]
  exact andThen (.probe _) (probe first.probed) fun thenType =>
    andThen (.probe _) (probe second.probed) fun elseType =>
      andThen (.commonType ctx thenType elseType) (variant.commonType thenType elseType) fun ty =>
        andThen .newLabel newLabel fun elseLabel => andThen .newLabel newLabel fun stop =>
          bind (reached (condition false elseLabel)) fun _ =>
            bind (whenAlive (bind (arm ty first.code) fun _ => jump stop (.inr ends))) fun _ =>
              bind (place elseLabel places) fun _ =>
                bind (whenAlive (arm ty second.code)) fun _ => place stop places

end Gen.Made

/-! ## Bodies -/

mutual

/-- Every reference to a local variable in an operation. -/
def Op.localRefs : Op → List LocalRef
  | .load ref | .increment ref _ => [ref]
  | .store ref value => ref :: localRefsIn value
  | .declare _ _ value | .putField _ value | .putStatic _ _ value | .newArray _ value
  | .arrayLoad value | .arith _ value | .block value => localRefsIn value
  | .arrayStore index value => localRefsIn index ++ localRefsIn value
  | .invoke _ args | .invokeStatic _ _ args | .construct _ args | .superInit args =>
      localRefsInArgs args
  | .ifThen cond body | .whileLoop cond body => cond.localRefs ++ localRefsIn body
  | .ifElse cond first second | .conditional cond first second =>
      cond.localRefs ++ localRefsIn first ++ localRefsIn second
  | .condValue cond => cond.localRefs
  | _ => []

/-- Every reference to a local variable in operations. -/
def localRefsIn : List Op → List LocalRef
  | [] => []
  | op :: rest => op.localRefs ++ localRefsIn rest

/-- Every reference to a local variable in arguments. -/
def localRefsInArgs : List (List Op) → List LocalRef
  | [] => []
  | arg :: rest => localRefsIn arg ++ localRefsInArgs rest

/-- Every reference to a local variable in a condition. -/
def Cond.localRefs : Cond → List LocalRef
  | .const _ => []
  | .truth value | .falsity value | .isNull value | .nonNull value => localRefsIn value
  | .compare _ left right _ => localRefsIn left ++ localRefsIn right
  | .conj parts | .disj parts => localRefsInParts parts

/-- Every reference to a local variable in conditions. -/
def localRefsInParts : List Cond → List LocalRef
  | [] => []
  | part :: rest => part.localRefs ++ localRefsInParts rest

end

mutual

/-- Every store in an operation, with the fragment whose value is stored. -/
def Op.stores : Op → List (LocalRef × Fragment)
  | .store ref value => (ref, value) :: storesIn value
  | .declare _ _ value | .putField _ value | .putStatic _ _ value | .newArray _ value
  | .arrayLoad value | .arith _ value | .block value => storesIn value
  | .arrayStore index value => storesIn index ++ storesIn value
  | .invoke _ args | .invokeStatic _ _ args | .construct _ args | .superInit args =>
      storesInArgs args
  | .ifThen cond body | .whileLoop cond body => cond.stores ++ storesIn body
  | .ifElse cond first second | .conditional cond first second =>
      cond.stores ++ storesIn first ++ storesIn second
  | .condValue cond => cond.stores
  | _ => []

/-- Every store in operations. -/
def storesIn : List Op → List (LocalRef × Fragment)
  | [] => []
  | op :: rest => op.stores ++ storesIn rest

/-- Every store in arguments. -/
def storesInArgs : List (List Op) → List (LocalRef × Fragment)
  | [] => []
  | arg :: rest => storesIn arg ++ storesInArgs rest

/-- Every store in a condition. -/
def Cond.stores : Cond → List (LocalRef × Fragment)
  | .const _ => []
  | .truth value | .falsity value | .isNull value | .nonNull value => storesIn value
  | .compare _ left right _ => storesIn left ++ storesIn right
  | .conj parts | .disj parts => storesInParts parts

/-- Every store in conditions. -/
def storesInParts : List Cond → List (LocalRef × Fragment)
  | [] => []
  | part :: rest => part.stores ++ storesInParts rest

end

/-- A plan whose parts are closed under steps, and which allows all steps with
local variables to which `refs` refers and all of `stores`. -/
structure Plan.Closed (ctx ctx' : Context) (plan : Plan) (refs : List LocalRef)
    (stores : List (LocalRef × Fragment)) : Prop where
  part : ∀ {live : Bool} {x x' : Gen Unit}, Made ctx ctx' plan live x x' → plan.part live x x'
  operand : ∀ (pos : Position) {code code' : Gen Unit}, plan.part false code code' →
    plan.operand ⟨pos, code⟩ ⟨pos, code'⟩
  ends : plan.may .ends
  places : plan.may .places
  writes : plan.may .writes
  refers : ∀ ref ∈ refs, plan.may (.refers ref)
  stores : ∀ store ∈ stores, ∀ pos, plan.may (.stores store.1 (codeFrom ctx pos 0 store.2))

section

variable {ctx ctx' : Context} {plan : Plan}

theorem Plan.Closed.mono {refs refs' : List LocalRef} {stores stores' : List (LocalRef × Fragment)}
    (closed : plan.Closed ctx ctx' refs stores) (fewer : refs' ⊆ refs)
    (fewerStores : stores' ⊆ stores) : plan.Closed ctx ctx' refs' stores' :=
  { closed with
    refers := fun ref mem => closed.refers ref (fewer mem)
    stores := fun store mem => closed.stores store (fewerStores mem) }

theorem Plan.Closed.ofOperand {refs : List LocalRef} {stores : List (LocalRef × Fragment)}
    (closed : plan.Closed ctx ctx' refs stores) (pos : Position) {code code' : Gen Unit}
    (part : plan.part false code code') : Made.OfOperand plan ⟨pos, code⟩ ⟨pos, code'⟩ :=
  ⟨closed.operand pos part, part⟩

mutual

/-- What holds of actions made of parts with the property holds of all
operations. -/
theorem Op.body_of_closed [ctx.Variant ctx' plan] (pos : Position) :
    (op : Op) → plan.Closed ctx ctx' op.localRefs op.stores →
      plan.part true (op.body ctx pos) (op.body ctx' pos)
  | .constant value, closed => closed.part (.constant value)
  | .boolean value, closed => closed.part (.boolean value)
  | .null, closed => closed.part (.source (by decide) _)
  | .this, closed => closed.part .receiverLoad
  | .load source, closed =>
      closed.part (.load source (closed.refers source (by simp [Op.localRefs])))
  | .store target value, closed =>
      closed.part (.store target closed.writes (closed.refers target (by simp [Op.localRefs]))
        (closed.stores (target, value) (by simp [Op.stores]) (0 :: pos))
        (codeFrom_of_closed _ 0 value (closed.mono (by simp [Op.localRefs]) (by simp [Op.stores]))))
  | .declare name type init, closed =>
      closed.part (.declare name type closed.writes (codeFrom_of_closed _ 0 init closed))
  | .declareUninit name type, closed => closed.part (.declareUninit name type closed.writes)
  | .increment target step, closed =>
      closed.part (.increment target step closed.writes
        (closed.refers target (by simp [Op.localRefs])))
  | .getField name, closed => closed.part (.getField name)
  | .putField name value, closed =>
      closed.part (.putField name (codeFrom_of_closed _ 0 value closed))
  | .getStatic owner name, closed => closed.part (.getStatic owner name)
  | .putStatic owner name value, closed =>
      closed.part (.putStatic owner name (codeFrom_of_closed _ 0 value closed))
  | .invoke name args, closed =>
      closed.part (.invoke (operandsFrom_of_closed pos 0 args closed) name)
  | .invokeStatic owner name args, closed =>
      closed.part (.invokeStatic (operandsFrom_of_closed pos 0 args closed) owner name)
  | .construct type args, closed =>
      closed.part (.construct (operandsFrom_of_closed pos 0 args closed) type)
  | .superInit args, closed =>
      closed.part (.superInit (operandsFrom_of_closed pos 0 args closed))
  | .newArray elem length, closed =>
      closed.part (.newArray elem (codeFrom_of_closed _ 0 length closed))
  | .arrayLoad index, closed => closed.part (.arrayLoad (codeFrom_of_closed _ 0 index closed))
  | .arrayStore index value, closed =>
      closed.part (.arrayStore
        (codeFrom_of_closed _ 0 index (closed.mono (by simp [Op.localRefs]) (by simp [Op.stores])))
        (codeFrom_of_closed _ 0 value (closed.mono (by simp [Op.localRefs]) (by simp [Op.stores]))))
  | .arrayLength, closed => closed.part .arrayLength
  | .arith op right, closed =>
      closed.part (.arith op (closed.ofOperand _ (codeFrom_of_closed _ 0 right closed)))
  | .negate, closed => closed.part .negate
  | .cast target, closed => closed.part (.castTop target)
  | .convert target, closed => closed.part (.coerceTop target)
  | .instanceOf type, closed => closed.part (.instanceOf type)
  | .pop, closed => closed.part .discard
  | .returnValue, closed => closed.part (.returnValue closed.ends)
  | .returnVoid, closed => closed.part (.returnVoid closed.ends)
  | .throw, closed => closed.part (.raise closed.ends)
  | .ifThen cond body, closed =>
      closed.part (.ifThen
        (cond.branch_of_closed _ (closed.mono (by simp [Op.localRefs]) (by simp [Op.stores])))
        closed.places
        (codeFrom_of_closed _ 0 body (closed.mono (by simp [Op.localRefs]) (by simp [Op.stores]))))
  | .ifElse cond body otherwise, closed =>
      closed.part (.ifElse
        (cond.branch_of_closed _ (closed.mono (by simp [Op.localRefs]) (by simp [Op.stores])))
        closed.ends closed.places
        (codeFrom_of_closed _ 0 body (closed.mono (by simp [Op.localRefs]) (by simp [Op.stores])))
        (codeFrom_of_closed _ 0 otherwise
          (closed.mono (by simp [Op.localRefs]) (by simp [Op.stores]))))
  | .whileLoop cond body, closed =>
      closed.part (.whileLoop
        (cond.branch_of_closed _ (closed.mono (by simp [Op.localRefs]) (by simp [Op.stores])))
        closed.ends closed.places
        (codeFrom_of_closed _ 0 body (closed.mono (by simp [Op.localRefs]) (by simp [Op.stores]))))
  | .conditional cond thenArm elseArm, closed =>
      closed.part (.conditional
        (cond.branch_of_closed _ (closed.mono (by simp [Op.localRefs]) (by simp [Op.stores])))
        closed.ends closed.places
        (closed.ofOperand _ (codeFrom_of_closed _ 0 thenArm
          (closed.mono (by simp [Op.localRefs]) (by simp [Op.stores]))))
        (closed.ofOperand _ (codeFrom_of_closed _ 0 elseArm
          (closed.mono (by simp [Op.localRefs]) (by simp [Op.stores])))))
  | .condValue cond, closed =>
      closed.part (.condValue (cond.branch_of_closed _ closed) closed.ends closed.places)
  | .block body, closed => closed.part (.inScope (.part (codeFrom_of_closed _ 0 body closed)))
  | .malformed _, closed => closed.part (.throw _)

theorem codeFrom_of_closed [ctx.Variant ctx' plan] (pos : Position) (index : Nat) :
    (ops : List Op) → plan.Closed ctx ctx' (localRefsIn ops) (storesIn ops) →
      plan.part false (codeFrom ctx pos index ops)
        (codeFrom ctx' pos index ops)
  | [], closed => closed.part (.pure ())
  | op :: rest, closed =>
      closed.part (.bind
        (.operation op.name (op.body_of_closed _
          (closed.mono (by simp [localRefsIn]) (by simp [storesIn])))) fun _ =>
            .part (codeFrom_of_closed pos (index + 1) rest
              (closed.mono (by simp [localRefsIn]) (by simp [storesIn]))))

theorem operandsFrom_of_closed [ctx.Variant ctx' plan] (pos : Position) (index : Nat) :
    (args : List (List Op)) → plan.Closed ctx ctx' (localRefsInArgs args) (storesInArgs args) →
      List.Forall₂ (Made.OfOperand plan) (operandsFrom ctx pos index args)
        (operandsFrom ctx' pos index args)
  | [], _ => .nil
  | arg :: rest, closed =>
      .cons (closed.ofOperand _ (codeFrom_of_closed _ 0 arg
          (closed.mono (by simp [localRefsInArgs]) (by simp [storesInArgs]))))
        (operandsFrom_of_closed pos (index + 1) rest
          (closed.mono (by simp [localRefsInArgs]) (by simp [storesInArgs])))

theorem Cond.branch_of_closed [ctx.Variant ctx' plan] (pos : Position) :
    (c : Cond) → plan.Closed ctx ctx' c.localRefs c.stores →
      Made.OfBranch plan (c.branch ctx pos) (c.branch ctx' pos)
  | .const value, closed => fun sense target =>
      closed.part (.constBranch closed.ends value sense target)
  | .truth value, closed => fun sense target =>
      closed.part (.truthBranch true (codeFrom_of_closed _ 0 value closed) sense target)
  | .falsity value, closed => fun sense target =>
      closed.part (.truthBranch false (codeFrom_of_closed _ 0 value closed) sense target)
  | .isNull value, closed => fun sense target =>
      closed.part (.nullBranch true (closed.ofOperand _ (codeFrom_of_closed _ 0 value closed))
        sense target)
  | .nonNull value, closed => fun sense target =>
      closed.part (.nullBranch false (closed.ofOperand _ (codeFrom_of_closed _ 0 value closed))
        sense target)
  | .compare op left right nan, closed => fun sense target =>
      closed.part (.compareBranch
        (closed.ofOperand _ (codeFrom_of_closed _ 0 left
          (closed.mono (by simp [Cond.localRefs]) (by simp [Cond.stores]))))
        (closed.ofOperand _ (codeFrom_of_closed _ 0 right
          (closed.mono (by simp [Cond.localRefs]) (by simp [Cond.stores]))))
        op nan sense target)
  | .conj parts, closed => fun sense target =>
      closed.part (.conjBranch (branchesFrom_of_closed pos 0 parts closed) closed.ends
        closed.places sense target)
  | .disj parts, closed => fun sense target =>
      closed.part (.disjBranch (branchesFrom_of_closed pos 0 parts closed) closed.ends
        closed.places sense target)

theorem branchesFrom_of_closed [ctx.Variant ctx' plan] (pos : Position) (index : Nat) :
    (parts : List Cond) → plan.Closed ctx ctx' (localRefsInParts parts) (storesInParts parts) →
      List.Forall₂ (Made.OfBranch plan) (branchesFrom ctx pos index parts)
        (branchesFrom ctx' pos index parts)
  | [], _ => .nil
  | part :: rest, closed =>
      .cons
        (part.branch_of_closed _
          (closed.mono (by simp [localRefsInParts]) (by simp [storesInParts])))
        (branchesFrom_of_closed pos (index + 1) rest
          (closed.mono (by simp [localRefsInParts]) (by simp [storesInParts])))

end

end

end JvmAssembler
