import Mathlib
import JvmAssembler.Proofs.Probing
import JvmAssembler.Proofs.ProbeMemory
import JvmAssembler.Proofs.Reinterpretation

/-!
# Calls are checked before anything is written

A call first finds the member that it means: it looks at the receiver, probes
the arguments, resolves the name and checks access and staticness.  Only then
does it write instructions.  Main statement: where the arguments are value
chains, nothing after the checks can fail, so that a call that fails has changed
nothing.

A dry run of a value chain tells what generating it gives, on any stack, and a
conversion that made an overload applicable is legal under every configuration.
The argument is made for calls that probe without memory; a call that remembers
types does the same.
-/

namespace JvmAssembler

open Gen

/-! ## Actions that only look -/

namespace Gen

variable {α β : Type} {ctx : Context}

/-- The action leaves frame and output alone, whether it succeeds or fails. -/
def Looks (x : Gen α) : Prop :=
  ∀ s, (stateAfter x s).frame = s.frame ∧ (stateAfter x s).output = s.output

namespace Looks

theorem pure (a : α) : Looks (pure a : Gen α) :=
  fun _ => ⟨rfl, rfl⟩

theorem throw (e : Error) : Looks (throw e : Gen α) :=
  fun _ => ⟨rfl, rfl⟩

theorem bind {x : Gen α} {f : α → Gen β} (first : Looks x) (rest : ∀ a, Looks (f a)) :
    Looks (x >>= f) := by
  intro s
  have before := first s
  rw [stateAfter_bind]
  cases run : x s with
  | error e t => rwa [stateAfter_of_error run] at before
  | ok a t =>
      rw [stateAfter_of_ok run] at before
      obtain ⟨frame, output⟩ := rest a t
      exact ⟨frame.trans before.1, output.trans before.2⟩

theorem check {condition : Prop} [Decidable condition] {e : Error} {x : Gen α} (looks : Looks x) :
    Looks (if condition then MonadExcept.throw e else x) := by
  split
  · exact throw e
  · exact looks

theorem peek : Looks peek := by
  intro s
  cases stackEq : s.frame.stack <;>
    simp [stateAfter, Gen.peek, onFrame, Frame.peek, stackEq]

theorem receiver (use : ReceiverUse) : Looks (receiver use) := by
  refine bind peek fun ty => ?_
  split
  · exact throw _
  · exact pure ty

theorem probe (operand : Operand) : Looks (probe ctx operand) := by
  intro s
  unfold stateAfter Gen.probe
  cases ctx.probing with
  | remembered =>
      dsimp only [probeRemembered]
      cases s.probed[operand.position]? with
      | some ty => exact ⟨rfl, rfl⟩
      | none => cases value operand.code s.dryRun <;> exact ⟨rfl, rfl⟩
  | fresh =>
      dsimp only [probeFresh]
      cases value operand.code s.dryRun <;> exact ⟨rfl, rfl⟩

theorem probeAll (args : List Operand) : Looks (probeAll ctx args) := by
  induction args with
  | nil => exact pure []
  | cons arg rest ih => exact bind (probe arg) fun _ => bind ih fun _ => pure _

theorem resolveMethod (owner : JType) (name : String) (args : List JType) (isConstructor : Bool) :
    Looks (resolveMethod ctx owner name args isConstructor) := by
  unfold Gen.resolveMethod
  split
  · exact throw _
  · refine bind ?_ fun _ => pure _
    unfold checkAccess
    split
    · exact pure ()
    · exact throw _

end Looks

end Gen

/-! ## The two halves of a call -/

/-- The operations that call a method or constructor. -/
inductive Call where
  | invoke (name : String) (args : List Fragment)
  | invokeStatic (owner : JType) (name : String) (args : List Fragment)
  | construct (type : JType) (args : List Fragment)
  | superInit (args : List Fragment)

namespace Call

def op : Call → Op
  | .invoke name args => .invoke name args
  | .invokeStatic owner name args => .invokeStatic owner name args
  | .construct type args => .construct type args
  | .superInit args => .superInit args

def args : Call → List Fragment
  | .invoke _ args | .invokeStatic _ _ args | .construct _ args | .superInit args => args

/-- The type whose members are searched; some calls fail here. -/
def owner (ctx : Context) : Call → Gen JType
  | .invoke name _ => receiver (.call name)
  | .invokeStatic owner _ _ => pure owner
  | .construct type _ =>
      if !isInstantiable type then throw (.invalidInput (.notInstantiable type)) else pure type
  | .superInit _ =>
      if ctx.isStatic then throw (.staticMismatch .superInStatic) else pure ctx.this.superclass

def memberName : Call → String
  | .invoke name _ | .invokeStatic _ name _ => name
  | .construct .. | .superInit _ => constructorName

def isConstructor : Call → Bool
  | .invoke .. | .invokeStatic .. => false
  | .construct .. | .superInit _ => true

/-- Fail unless the member can be called in this way. -/
def checkStatic (method : Member) : Call → Gen Unit
  | .invoke .. =>
      if method.isStatic then throw (.staticMismatch (.staticMethod method)) else pure ()
  | .invokeStatic .. =>
      if !method.isStatic then throw (.staticMismatch (.instanceMethod method)) else pure ()
  | .construct .. | .superInit _ => pure ()

/-- The operands of a call at a position. -/
def operands (ctx : Context) (pos : Position) (call : Call) : List Operand :=
  operandsFrom ctx pos 0 call.args

/-- All checks of a call: the probes, the resolution, the access check and the
check of staticness. -/
def callee (ctx : Context) (pos : Position) (call : Call) : Gen Member := do
  let owner ← call.owner ctx
  let argTypes ← probeAll ctx (call.operands ctx pos)
  let method ← resolveMethod ctx owner call.memberName argTypes call.isConstructor
  call.checkStatic method
  return method

/-- Put the object on the stack whose constructor is run. -/
def prepare (ctx : Context) : Call → Gen Unit
  | .construct type _ => do
      emit ctx (.type .newObject type)
      push type
      emitOp ctx .dup
      push type
  | .superInit _ => do
      emit ctx (.var .aload 0)
      push .self
  | .invoke .. | .invokeStatic .. => pure ()

def opcode (method : Member) : Call → Opcode
  | .invoke .. => invokeOpcode method
  | .invokeStatic .. => .invokestatic
  | .construct .. | .superInit _ => .invokespecial

def hasReceiver : Call → Bool
  | .invokeStatic .. => false
  | .invoke .. | .construct .. | .superInit _ => true

/-- What a call does once its member is known: generate and convert the
arguments and finish the call. -/
def complete (ctx : Context) (pos : Position) (call : Call) (method : Member) : Gen Unit := do
  call.prepare ctx
  arguments ctx (call.operands ctx pos) method.params
  finishCall ctx (call.opcode method) method call.hasReceiver

theorem body_op (ctx : Context) (pos : Position) (call : Call) :
    call.op.body ctx pos = call.callee ctx pos >>= call.complete ctx pos := by
  cases call with
  | invoke name args =>
      simp only [callee, bind_assoc, pure_bind]
      refine bind_congr fun owner => bind_congr fun types => bind_congr fun method => ?_
      dsimp only [checkStatic]
      split <;> rfl
  | invokeStatic owner name args =>
      simp only [callee, bind_assoc, pure_bind]
      refine bind_congr fun types => bind_congr fun method => ?_
      dsimp only [checkStatic]
      split <;> rfl
  | construct type args =>
      simp only [callee, bind_assoc, pure_bind]
      dsimp only [Call.owner, op, Op.body, Gen.construct]
      split
      · rfl
      · refine bind_congr fun types => bind_congr fun method => ?_
        simp only [checkStatic, complete, prepare, bind_assoc, pure_bind]
        rfl
  | superInit args =>
      simp only [callee, bind_assoc, pure_bind]
      dsimp only [Call.owner, op, Op.body, Gen.superInit]
      split
      · rfl
      · refine bind_congr fun types => bind_congr fun method => ?_
        simp only [checkStatic, complete, prepare, bind_assoc, pure_bind]
        rfl

theorem looks_owner (ctx : Context) (call : Call) : Looks (call.owner ctx) := by
  cases call with
  | invoke name args => exact .receiver _
  | invokeStatic owner name args => exact .pure owner
  | construct type args => exact .check (.pure type)
  | superInit args => exact .check (.pure _)

theorem looks_checkStatic (method : Member) (call : Call) : Looks (call.checkStatic method) := by
  cases call with
  | invoke name args => exact .check (.pure ())
  | invokeStatic owner name args => exact .check (.pure ())
  | construct type args | superInit args => exact .pure ()

theorem looks_callee (ctx : Context) (pos : Position) (call : Call) :
    Looks (call.callee ctx pos) :=
  (call.looks_owner ctx).bind fun _ => (Looks.probeAll _).bind fun _ =>
    Looks.bind (.resolveMethod _ _ _ _) fun method =>
      (call.looks_checkStatic method).bind fun _ => .pure method

end Call

/-! ## Applicable members -/

namespace Conversion

theorem classify_self (table : MemberTable) (narrow : Bool) (ty : JType) :
    classify table narrow ty ty = .identity := by
  simp [classify]

/-- A value converts to types of values only. -/
theorem not_isVoid_of_isImplicit {table : MemberTable} {narrow : Bool} {source target : JType}
    (notVoid : source.isVoid = false)
    (implicit : (classify table narrow source target).isImplicit = true) :
    target.isVoid = false := by
  by_cases same : source = target
  · rwa [← same]
  · cases isVoid : target.isVoid with
    | false => rfl
    | true => simp [classify, same, isVoid, isImplicit] at implicit

theorem isImplicit_of_isStrict {conversion : Conversion} (strict : conversion.isStrict = true) :
    conversion.isImplicit = true := by
  cases conversion <;> first | rfl | contradiction

end Conversion

/-- Arguments of these types are passed by implicit conversions. -/
def MemberTable.Converts (table : MemberTable) : List JType → List JType → Prop :=
  List.Forall₂ fun arg param => (Conversion.classify table false arg param).isImplicit = true

theorem MemberTable.converts_of_isApplicable {table : MemberTable} {strict : Bool}
    {args : List JType} {member : Member}
    (applicable : table.isApplicable strict args member = true) :
    table.Converts args member.params := by
  simp only [isApplicable, Bool.and_eq_true, decide_eq_true_eq, List.all_eq_true] at applicable
  obtain ⟨counted, converts⟩ := applicable
  refine (List.forall₂_iff_zip.mpr ⟨counted, fun {param arg} mem => ?_⟩).flip
  have allowed := converts (param, arg) mem
  dsimp only at allowed
  split at allowed
  · exact Conversion.isImplicit_of_isStrict allowed
  · exact allowed

theorem MemberTable.converts_of_resolve {table : MemberTable} {owner : JType} {name : String}
    {args : List JType} {isConstructor : Bool} {member : Member}
    (found : table.resolve owner name args isConstructor = some member) :
    table.Converts args member.params := by
  have applicable {strict : Bool} {candidates : List Member}
      (preferred : table.preferred? (candidates.filter (table.isApplicable strict args)) =
        some member) : table.Converts args member.params :=
    converts_of_isApplicable (List.mem_filter.mp (mem_of_preferred? preferred)).2
  simp only [resolve] at found
  rcases (Option.orElse_eq_some _ _ _).mp found with exactly | ⟨-, found⟩
  · obtain rfl : member.params = args := by simpa using List.find?_some exactly
    exact List.forall₂_same.mpr fun ty _ => by rw [Conversion.classify_self]; rfl
  · rcases (Option.orElse_eq_some _ _ _).mp found with strict | ⟨-, loose⟩
    · exact applicable strict
    · exact applicable loose

/-! ## Actions that cannot fail -/

namespace Gen

variable {α β : Type} {ctx : Context} {s t : State}

/-- The action succeeds with a result and in a state as promised. -/
def Succeeds (x : Gen α) (s : State) (post : α → State → Prop) : Prop :=
  ∃ a t, x s = .ok a t ∧ post a t

namespace Succeeds

variable {mid : α → State → Prop} {post post' : β → State → Prop}

theorem bind {x : Gen α} {f : α → Gen β} (first : Succeeds x s mid)
    (rest : ∀ a t, mid a t → Succeeds (f a) t post) : Succeeds (x >>= f) s post := by
  obtain ⟨a, t, ran, between⟩ := first
  obtain ⟨b, u, ranOn, after⟩ := rest a t between
  exact ⟨b, u, bind_eq_ok.mpr ⟨a, t, ran, ranOn⟩, after⟩

theorem mono {x : Gen β} (succeeds : Succeeds x s post) (weaker : ∀ b t, post b t → post' b t) :
    Succeeds x s post' := by
  obtain ⟨b, t, ran, after⟩ := succeeds
  exact ⟨b, t, ran, weaker b t after⟩

theorem pure {b : β} (holds : post b s) : Succeeds (pure b) s post :=
  ⟨b, s, rfl, holds⟩

theorem emit {instr : Instr} (plain : instr.isPlain = true) :
    Succeeds (emit ctx instr) s fun _ t => Emits s t [instr] s.frame.stack := by
  obtain ⟨t, ran⟩ : ∃ t, Gen.emit ctx instr s = .ok () t := by
    cases instr with
    | op code =>
        have continues : code.isTerminal = false := by simpa [Instr.isPlain] using plain
        simp only [Gen.emit, continues]
        exact ⟨_, rfl⟩
    | _ => exact ⟨_, rfl⟩
  exact ⟨(), t, ran, emit_emits plain ran⟩

theorem emitAll {code : List Instr} (plain : ∀ instr ∈ code, instr.isPlain = true) :
    Succeeds (emitAll ctx code) s fun _ t => Emits s t code s.frame.stack := by
  induction code generalizing s with
  | nil => exact pure (Emits.refl s)
  | cons instr rest ih =>
      refine (emit (plain instr (by simp))).bind fun _ t wrote => ?_
      refine (ih fun other mem => plain other (by simp [mem])).mono fun _ u wroteOthers => ?_
      rw [wrote.stack_eq] at wroteOthers
      exact wrote.trans wroteOthers

theorem onFrame {op : FrameOp β} {b : β} {frame : Frame} (ran : op s.frame = .ok b frame)
    (after : onFrame op s = .ok b { s with frame } → post b { s with frame }) :
    Succeeds (onFrame op) s post :=
  have run := onFrame_eq_ok.mpr ⟨frame, ran, rfl⟩
  ⟨b, _, run, after run⟩

theorem push {ty : JType} (notVoid : ty.isVoid = false) :
    Succeeds (push ty) s fun _ t => Emits s t [] (ty :: s.frame.stack) :=
  onFrame (Frame.push_eq_ok.mpr ⟨notVoid, rfl⟩) fun run => (push_emits run).1

theorem popN {n : Nat} (enough : n ≤ s.frame.stack.length) :
    Succeeds (popN n) s fun _ t => Emits s t [] (s.frame.stack.drop n) :=
  onFrame (Frame.popN_eq_ok.mpr ⟨enough, rfl, rfl⟩) fun run => (popN_emits run).2

theorem peek {ty : JType} {rest : List JType} (stackEq : s.frame.stack = ty :: rest) :
    Succeeds peek s fun found t => ty = found ∧ s = t :=
  ⟨ty, s, peek_eq_ok.mpr ⟨⟨rest, stackEq⟩, rfl⟩, rfl, rfl⟩

theorem convertTop {source target : JType} {rest : List JType}
    (stackEq : s.frame.stack = source :: rest) (legal : conversion ctx source target ≠ .illegal)
    (notVoid : target.isVoid = false) :
    Succeeds (convertTop ctx source target (conversion ctx source target)) s fun _ t =>
      Emits s t ((conversion ctx source target).instrs source target) (target :: rest) := by
  have converts : Succeeds
      (do Gen.emitAll ctx ((conversion ctx source target).instrs source target)
          Gen.onFrame (Frame.replaceTop target)) s fun _ _ => True := by
    refine (emitAll (Conversion.instrs_plain _ source target)).bind fun _ t wrote => ?_
    have ran := Frame.replaceTop_eq_ok.mpr
      ⟨source, rest, wrote.stack_eq.trans stackEq, notVoid, rfl⟩
    exact onFrame ran fun _ => trivial
  have runs : Succeeds (Gen.convertTop ctx source target (conversion ctx source target)) s
      fun _ _ => True := by
    rw [convertTop_conversion, if_neg legal]
    split
    · exact pure trivial
    · exact converts
  obtain ⟨_, t, ran, -⟩ := runs
  exact ⟨(), t, ran, convertTop_emits stackEq ran⟩

theorem coerceTop {source target : JType} {rest : List JType}
    (stackEq : s.frame.stack = source :: rest) (notVoid : source.isVoid = false)
    (implicit : (Conversion.classify ctx.table false source target).isImplicit = true) :
    Succeeds (coerceTop ctx target) s fun _ t => ∃ code, Emits s t code (target :: rest) := by
  have same : conversion ctx source target = Conversion.classify ctx.table false source target :=
    Conversion.classify_of_isImplicit implicit _
  refine (peek stackEq).bind ?_
  rintro source t ⟨rfl, rfl⟩
  rw [if_pos (by rw [same, implicit])]
  have legal : conversion ctx source target ≠ .illegal := by
    intro illegal
    rw [← same, illegal] at implicit
    contradiction
  exact (convertTop stackEq legal
    (Conversion.not_isVoid_of_isImplicit notVoid implicit)).mono fun _ _ emits => ⟨_, emits⟩

end Succeeds

/-! ## Operands that cannot fail -/

/-- A state inside an operation in which an operand can be generated. -/
structure Prepared (locals : LocalTable) (types : Position → Option JType) (s : State) : Prop
    extends Ready locals types s where
  nested : s.depth ≠ 0

variable {locals : LocalTable} {types : Position → Option JType}

theorem Prepared.emits {code : List Instr} {stack : List JType}
    (prepared : Prepared locals types s) (emits : Emits s t code stack) :
    Prepared locals types t where
  locals_eq := emits.locals_eq.trans prepared.locals_eq
  matched := prepared.matched
  shapesBelow := (Later.of_shapes emits.nextLabel_eq emits.shapes_eq : Later [] s t).shapesBelow
    prepared.shapesBelow (by simp)
  knows := by
    intro p ty found
    rw [emits.probed_eq] at found
    exact prepared.knows p ty found
  alive := emits.alive_eq.trans prepared.alive
  nested := by
    rw [emits.depth_eq]
    exact prepared.nested

end Gen

/-- Inside an operation, a dry run is a twin of the run itself. -/
theorem twin_dryRun {s : State} (below : s.ShapesBelow) (nested : s.depth ≠ 0) :
    Twin (.upToLabel fun _ => True) ⟨s.output.nextLabel, 2147483648, s.code, []⟩ s s.dryRun where
  frame_eq := by rw [Renumbering.frame, below.shapes_eq_nil]; rfl
  base_le := le_refl _
  nextLabel_eq := by simp [State.dryRun, Output.discarded, Nat.add_comm]
  code_eq := ⟨[], by simp, rfl⟩
  memory_eq := by
    rintro p _ ⟨rfl, -⟩
    rfl
  depth_iff := fun _ => iff_of_false nested (Nat.succ_ne_zero _)

/-- Inside an operation, generating a fragment as a value and its dry run give
the same. -/
theorem value_agrees_dryRun {ctx : Context} {s : State} (pos : Position) (ops : List Op)
    (below : s.ShapesBelow) (nested : s.depth ≠ 0) :
    Agrees (Pairing.upToLabel fun _ => True).errors
      (Twin (.upToLabel fun _ => True) ⟨s.output.nextLabel, 2147483648, s.code, []⟩)
      (value (codeFrom ctx pos 0 ops) s) (value (codeFrom ctx pos 0 ops) s.dryRun) := by
  have alike := codeFrom_alike ctx (.upToLabel fun _ => True) pos pos 0 ops
    (fun _ _ _ => ⟨rfl, trivial⟩) false [] []
  have twin := twin_dryRun below nested
  exact twin.value (alike.agrees (Shadows.tolerates _) (by simp) twin).1

theorem depth_eq_of_value {ctx : Context} {s t : State} {ty : JType} {pos : Position}
    {ops : List Op} (run : value (codeFrom ctx pos 0 ops) s = .ok ty t) : t.depth = s.depth := by
  have alike := codeFrom_alike ctx (.below pos) pos pos 0 ops
    (Pairing.below_covers List.suffix_rfl _) false [] []
  have kept : Kept s (stateAfter (value (codeFrom ctx pos 0 ops)) s) :=
    (alike.kept (by simp) (by simp)).1.of_value
  rw [stateAfter_of_ok run] at kept
  exact kept.depth_eq

/-- Inside an operation, a fragment whose dry run succeeds can be generated. -/
theorem succeeds_of_dryRun {ctx : Context} {s dry : State} {ty : JType} {pos : Position}
    {ops : List Op} (below : s.ShapesBelow) (nested : s.depth ≠ 0)
    (ran : value (codeFrom ctx pos 0 ops) s.dryRun = .ok ty dry) :
    Succeeds (value (codeFrom ctx pos 0 ops)) s fun found t => ty = found ∧ t.depth = s.depth := by
  obtain ⟨t, run, -⟩ := (value_agrees_dryRun pos ops below nested).exists_ok_left ran
  exact ⟨ty, t, run, rfl, depth_eq_of_value run⟩

namespace Gen

variable {ctx : Context} {s t : State} {locals : LocalTable} {types : Position → Option JType}

/-- Wherever it can be generated, the operand leaves one value, of this type. -/
def Delivers (locals : LocalTable) (types : Position → Option JType) (operand : Operand)
    (ty : JType) : Prop :=
  ∀ ⦃s⦄, Prepared locals types s → Succeeds (value operand.code) s fun found t =>
    ty = found ∧ ty.isVoid = false ∧ Prepared locals types t ∧ t.frame.stack = ty :: s.frame.stack

theorem Answers.delivers {pos : Position} {operand : Fragment} {ty : JType}
    (answers : Answers locals (codeFrom ctx pos 0 operand) ty)
    (known : KnownOperand ctx locals types pos operand) :
    Delivers locals types ⟨pos, codeFrom ctx pos 0 operand⟩ ty := by
  intro s prepared
  obtain ⟨dry, ran⟩ := answers s prepared.alive prepared.locals_eq
  obtain ⟨found, t, run, rfl, depth⟩ :=
    succeeds_of_dryRun prepared.shapesBelow prepared.nested ran
  obtain ⟨-, notVoid, goes⟩ := known.ofOperand.evaluates.value prepared.toReady run
  have nested : t.depth ≠ 0 := by
    rw [depth]
    exact prepared.nested
  exact ⟨ty, t, run, rfl, notVoid, ⟨goes.ready prepared.toReady, nested⟩, goes.stack_eq⟩

theorem operandsFrom_deliver {pos : Position} {index : Nat} {args : List Fragment}
    {found : List JType}
    (known : Known ctx locals types pos (operandsInArgs args) (argumentAt? index args))
    (answers : List.Forall₂ (fun operand ty => Answers locals operand.code ty)
      (operandsFrom ctx pos index args) found) :
    List.Forall₂ (Delivers locals types) (operandsFrom ctx pos index args) found := by
  induction args generalizing index found with
  | nil =>
      cases answers
      exact .nil
  | cons arg rest ih =>
      obtain - | ⟨first, others⟩ := answers
      have knownArg : KnownOperand ctx locals types (index :: pos) arg :=
        known.operand index (by simp [operandsInArgs]) fun path => by simp [argumentAt?]
      refine .cons (Answers.delivers first knownArg) (ih ?_ others)
      exact known.mono (by simp [operandsInArgs]) fun _ _ => argumentAt?_cons_of_rest

theorem probe_fresh_eq_ok {operand : Operand} {ty : JType} (fresh : ctx.probing = .fresh)
    (run : probe ctx operand s = .ok ty t) :
    t = { s with log := t.log } ∧ ∃ dry, value operand.code s.dryRun = .ok ty dry := by
  simp only [probe, fresh, probeFresh] at run
  cases ran : value operand.code s.dryRun with
  | error e dry => simp [ran] at run
  | ok found dry =>
      simp only [ran, EStateM.Result.ok.injEq] at run
      obtain ⟨rfl, rfl⟩ := run
      exact ⟨rfl, dry, rfl⟩

/-- The types of the arguments are what dry runs of them give anywhere. -/
theorem answers_of_probeAll {args : List Operand} {found : List JType}
    (fresh : ctx.probing = .fresh) (lifts : ∀ arg ∈ args, LiftsValue arg.code)
    (alive : s.frame.alive = true) (run : probeAll ctx args s = .ok found t) :
    t = { s with log := t.log } ∧
      List.Forall₂ (fun arg ty => Answers s.frame.locals arg.code ty) args found := by
  induction args generalizing s found with
  | nil =>
      obtain ⟨rfl, rfl⟩ := pure_eq_ok.mp run
      exact ⟨rfl, .nil⟩
  | cons arg rest ih =>
      obtain ⟨ty, u, probed, run⟩ := bind_eq_ok.mp run
      obtain ⟨others, v, ran, returned⟩ := bind_eq_ok.mp run
      obtain ⟨rfl, rfl⟩ := pure_eq_ok.mp returned
      obtain ⟨same, dry, dryRan⟩ := probe_fresh_eq_ok fresh probed
      have frame : u.frame = s.frame := by rw [same]
      obtain ⟨same', answers⟩ := ih (fun arg mem => lifts arg (by simp [mem])) (by rwa [frame]) ran
      rw [frame] at answers
      refine ⟨?_, .cons ((lifts arg (by simp)).answers alive dryRan) answers⟩
      rw [same', same]

namespace Succeeds

theorem arguments {args : List Operand} {found params : List JType}
    (deliver : List.Forall₂ (Delivers locals types) args found)
    (converts : ctx.table.Converts found params) (prepared : Prepared locals types s) :
    Succeeds (arguments ctx args params) s fun _ t =>
      t.frame.stack = params.reverse ++ s.frame.stack := by
  induction deliver generalizing params s with
  | nil =>
      cases converts
      exact pure rfl
  | cons first _ ih =>
      obtain - | ⟨implicit, converts⟩ := converts
      refine (first prepared).bind ?_
      rintro ty t ⟨rfl, notVoid, prepared', stackEq⟩
      refine (coerceTop stackEq notVoid implicit).bind fun _ u ⟨code, emits⟩ => ?_
      refine (ih converts (prepared'.emits emits)).mono fun _ v stackEq' => ?_
      simp [stackEq', emits.stack_eq]

theorem finishCall {code : Opcode} {method : Member} {hasReceiver : Bool}
    (enough : method.params.length + (if hasReceiver then 1 else 0) ≤ s.frame.stack.length) :
    Succeeds (finishCall ctx code method hasReceiver) s fun _ _ => True := by
  refine (popN enough).bind fun _ t _ => (emit rfl).bind fun _ u _ => ?_
  cases notVoid : method.valueType.isVoid with
  | true => exact pure trivial
  | false => exact (push notVoid).mono fun _ _ _ => trivial

end Succeeds

end Gen

/-! ## Calls -/

namespace Call

variable {ctx : Context} {s t : State} {call : Call} {pos : Position} {method : Member}

theorem owner_eq_ok {owner : JType} (ran : call.owner ctx s = .ok owner t) : s = t := by
  cases call with
  | invoke name args => exact (receiver_eq_ok ran).2.2
  | invokeStatic owner name args => exact (pure_eq_ok.mp ran).2
  | construct type args | superInit args =>
      dsimp only [Call.owner] at ran
      split at ran
      · exact (throw_eq_ok.mp ran).elim
      · exact (pure_eq_ok.mp ran).2

theorem checkStatic_eq_ok (ran : call.checkStatic method s = .ok () t) : s = t := by
  cases call with
  | invoke name args | invokeStatic owner name args =>
      dsimp only [checkStatic] at ran
      split at ran
      · exact (throw_eq_ok.mp ran).elim
      · exact (pure_eq_ok.mp ran).2
  | construct type args | superInit args => exact (pure_eq_ok.mp ran).2

/-- After the checks the receiver, if the call has one, can be put on the
stack. -/
theorem prepare_succeeds {owner : JType} {u : State} (ran : call.owner ctx s = .ok owner u)
    (same : t.frame.stack = s.frame.stack) :
    Succeeds (call.prepare ctx) t fun _ v => (∃ code stack, Emits t v code stack) ∧
      (if call.hasReceiver then 1 else 0) ≤ v.frame.stack.length := by
  cases call with
  | invoke name args =>
      obtain ⟨⟨rest, stackEq⟩, -, -⟩ := receiver_eq_ok ran
      exact .pure ⟨⟨_, _, Emits.refl t⟩, by simp [same, stackEq, hasReceiver]⟩
  | invokeStatic owner name args =>
      exact .pure ⟨⟨_, _, Emits.refl t⟩, Nat.zero_le _⟩
  | construct type args =>
      have notVoid : type.isVoid = false := by
        dsimp only [Call.owner] at ran
        split at ran
        · exact (throw_eq_ok.mp ran).elim
        · cases type <;> simp_all [isInstantiable, JType.isVoid]
      refine Succeeds.bind (.emit rfl) fun _ v wrote => ?_
      refine Succeeds.bind (.push notVoid) fun _ w pushed => ?_
      refine Succeeds.bind (.emit rfl) fun _ x copied => ?_
      refine (Succeeds.push notVoid).mono fun _ y pushed' => ?_
      refine ⟨⟨_, _, ((wrote.trans pushed).trans copied).trans pushed'⟩, ?_⟩
      simp [pushed'.stack_eq, hasReceiver]
  | superInit args =>
      refine Succeeds.bind (.emit rfl) fun _ v wrote =>
        (Succeeds.push rfl).mono fun _ w pushed => ?_
      exact ⟨⟨_, _, wrote.trans pushed⟩, by simp [pushed.stack_eq, hasReceiver]⟩

/-- Without memory: once the checks have passed, nothing can fail. -/
theorem complete_anew_succeeds {types : Position → Option JType}
    (known : Known ctx.anew s.frame.locals types pos (operandsInArgs call.args)
      (argumentAt? 0 call.args))
    (prepared : Prepared s.frame.locals types s)
    (ran : call.callee ctx.anew pos s = .ok method t) :
    Succeeds (call.complete ctx.anew pos method) t fun _ _ => True := by
  obtain ⟨owner, u, owned, run⟩ := bind_eq_ok.mp ran
  obtain ⟨found, v, probed, run⟩ := bind_eq_ok.mp run
  obtain ⟨resolved, w, resolving, run⟩ := bind_eq_ok.mp run
  obtain ⟨_, x, checked, returned⟩ := bind_eq_ok.mp run
  obtain ⟨rfl, rfl⟩ := pure_eq_ok.mp returned
  obtain rfl := owner_eq_ok owned
  obtain ⟨isMethod, rfl⟩ := resolveMethod_eq_ok resolving
  obtain rfl := checkStatic_eq_ok checked
  obtain ⟨same, answers⟩ := answers_of_probeAll rfl
    (operandsFrom_lift ctx pos 0 call.args known.chains) prepared.alive probed
  have prepared' : Prepared s.frame.locals types v := by
    rw [same]
    exact ⟨⟨⟨prepared.locals_eq, prepared.matched, prepared.shapesBelow, prepared.knows⟩,
      prepared.alive⟩, prepared.nested⟩
  refine (prepare_succeeds owned (by rw [same])).bind fun _ y ⟨⟨_, _, emits⟩, receiver⟩ => ?_
  refine Succeeds.bind (.arguments (operandsFrom_deliver known answers)
    (MemberTable.converts_of_resolve isMethod) (prepared'.emits emits)) fun _ z stackEq => ?_
  exact .finishCall (by simp [stackEq]; omega)

/-! ## Calls that remember types -/

variable {codes : CodeAt} {locals : LocalTable} {plan : Plan} {live : Bool}

theorem callee_made
    (fits : List.Forall₂ (Made.OfOperand plan) (call.operands ctx pos)
      (call.operands ctx.anew pos)) :
    Made ctx ctx.anew plan true (call.callee ctx pos) (call.callee ctx.anew pos) := by
  have keeps : KeepsAlive (call.owner ctx) := by
    intro s owner t run alive
    rwa [← owner_eq_ok run]
  have owns : Made ctx ctx.anew plan true (call.owner ctx) (call.owner ctx.anew) := by
    cases call with
    | invoke name args => exact .receiverType _
    | invokeStatic owner name args => exact .pure owner
    | construct type args => exact .ite (.throw _) (.pure type)
    | superInit args => exact .ite (.throw _) (.pure _)
  have checks (method : Member) :
      Made ctx ctx.anew plan false (call.checkStatic method) (call.checkStatic method) := by
    cases call with
    | invoke name args => exact .ite (.throw _) (.pure ())
    | invokeStatic owner name args => exact .ite (.throw _) (.pure ())
    | construct type args | superInit args => exact .pure ()
  exact owns.andThen keeps fun owner => .bind (.probeAll fits) fun types =>
    .bind (Context.Variant.resolveMethod ..) fun method => .bind (checks method) fun _ => .pure method

theorem prepare_follows : Follows codes locals live (call.prepare ctx) (call.prepare ctx.anew) := by
  refine .of_tracks fun scopes => ?_
  have emits (instr : Instr) : Tracks (Sound codes locals scopes) (Sound codes locals scopes)
      (emit ctx instr) (emit ctx.anew instr) := Sound.steady.emit instr
  have pushes (ty : JType) : Tracks (Sound codes locals scopes) (Sound codes locals scopes)
      (push ty) (push ty) := Sound.steady.onFrame (.push ty)
  cases call with
  | invoke name args | invokeStatic owner name args => exact .pure ()
  | construct type args =>
      exact (emits _).bind fun _ => (pushes type).bind fun _ => (emits _).bind fun _ => pushes type
  | superInit args => exact (emits _).bind fun _ => pushes .self

/-- Once the checks have passed, nothing can fail. -/
theorem complete_succeeds (empty : s.probed = ∅) (below : s.ShapesBelow)
    (matched : s.frame.locals.Matched) (nested : s.depth ≠ 0) (alive : s.frame.alive = true)
    (chains : ∀ operand ∈ operandsInArgs call.args, operand.isValueChain = true)
    (ran : call.callee ctx pos s = .ok method t) :
    Succeeds (call.complete ctx pos method) t fun _ _ => True := by
  have unprobed : ∀ path operand, argumentAt? 0 call.args path = some operand →
      s.probed[path.reverse ++ pos]? = none := fun _ _ _ => by simp [empty]
  obtain ⟨types, knows, known⟩ := exists_known ctx.anew pos s chains unprobed
  have prepared : Prepared s.frame.locals types s := ⟨⟨⟨rfl, matched, below, knows⟩, alive⟩, nested⟩
  cases mode : ctx.probing with
  | fresh =>
      have anew : ctx.anew = ctx := by rw [Context.anew, ← mode]
      rw [← anew] at ran ⊢
      exact complete_anew_succeeds known prepared ran
  | remembered =>
      have stands : Stands ctx (codesAt ctx pos (argumentAt? 0 call.args)) pos
          (operandsInArgs call.args) (argumentAt? 0 call.args) := stands_codesAt chains
      have closes : Transparent ctx (codesAt ctx pos (argumentAt? 0 call.args)) s.frame.locals :=
        transparent_codesAt mode
      have fits := operandsFrom_follow closes pos 0 call.args stands
      have checks : Follows (codesAt ctx pos (argumentAt? 0 call.args)) s.frame.locals true
          (call.callee ctx pos) (call.callee ctx.anew pos) :=
        .of_made mode codesAt_unique (callee_made fits)
      have completes : Follows (codesAt ctx pos (argumentAt? 0 call.args)) s.frame.locals false
          (call.complete ctx pos method) (call.complete ctx.anew pos method) :=
        have finishes : Follows (codesAt ctx pos (argumentAt? 0 call.args)) s.frame.locals false
            _ _ :=
          .of_made mode codesAt_unique
            (.bind (.arguments fits method.params) fun _ => .finishCall _ method _)
        prepare_follows.seq (by simp) fun _ _ => finishes
      have same : s.Matches s := ⟨rfl, rfl⟩
      obtain ⟨agrees, after⟩ :=
        checks s.frame.scopes same ⟨sound_codesAt matched unprobed, fun _ => alive⟩
      obtain ⟨t', ran', same⟩ := agrees.exists_ok ran
      obtain ⟨_, u', finished, -⟩ := complete_anew_succeeds known prepared ran'
      obtain ⟨u, run, -⟩ := (completes.tracks same (after method t ran)).1.exists_ok_left finished
      exact ⟨_, u, run, trivial⟩

/-- Calls are checked before anything is written.  Between outermost operations,
a call whose arguments are value chains, with their own operands, leaves all but
the log as it was if it fails; for once the probes, the resolution, the access
check and the check of staticness have passed, generating and converting the
arguments and finishing the call succeed. -/
theorem operation_atomic (reached : Reached ctx s) (pos : Position) (call : Call)
    (chains : ∀ operand ∈ operandsInArgs call.args, operand.isValueChain = true) :
    (∀ e t, operation call.op.name (call.op.body ctx pos) s = .error e t →
      t = { s with log := t.log }) ∧
    (s.frame.alive = true → ∀ method t,
      call.callee ctx pos { s with depth := s.depth + 1 } = .ok method t →
        ∃ u, call.complete ctx pos method t = .ok () u) := by
  obtain ⟨outermost, empty, below, matched⟩ := reached.invariant
  have completes (alive : s.frame.alive = true) (method : Member) (t : State)
      (ran : call.callee ctx pos { s with depth := s.depth + 1 } = .ok method t) :
      ∃ u, call.complete ctx pos method t = .ok () u := by
    obtain ⟨_, u, run, -⟩ := complete_succeeds (s := { s with depth := s.depth + 1 }) empty below
      matched (Nat.succ_ne_zero _) alive chains ran
    exact ⟨u, run⟩
  refine ⟨fun e t failed => ?_, completes⟩
  have restored (u : State) (frame : u.frame = s.frame) (output : u.output = s.output) :
      u.leave s.depth = { s with log := u.log } := by
    simp [State.leave, frame, output, outermost, empty]
  rw [operation_apply, body_op] at failed
  cases alive : s.frame.alive with
  | false =>
      simp only [alive, Bool.false_eq_true, if_false, EStateM.Result.error.injEq] at failed
      rw [← failed.2]
      exact restored _ rfl rfl
  | true =>
      cases run : (call.callee ctx pos >>= call.complete ctx pos)
          { s with depth := s.depth + 1 } with
      | ok a u => simp [alive, run] at failed
      | error e' u =>
          simp only [alive, if_true, run, EStateM.Result.error.injEq] at failed
          obtain checking | ⟨method, v, checked, completing⟩ := bind_eq_error run
          · have looks := call.looks_callee ctx pos { s with depth := s.depth + 1 }
            rw [stateAfter_of_error checking] at looks
            rw [← failed.2]
            exact restored u looks.1 looks.2
          · obtain ⟨w, completed⟩ := completes alive method v checked
            cases completed.symm.trans completing

end Call

namespace Sample

open Fragment

/-- `Math.max(a < b ? a : b, 7L)`, whose first argument is widened. -/
def boundedMinimum : Call :=
  .invokeStatic (.named "java.lang.Math") "max" [minimum.body.take 1, [.constant (.long 7)]]

/-- `Math.max(a < b ? a : b, "7")`, for which there is no method. -/
def unboundedMinimum : Call :=
  .invokeStatic (.named "java.lang.Math") "max" [minimum.body.take 1, string "7"]

theorem minimum_operation_atomic :
    Reached minimumContext minimumState ∧
      (∀ operand ∈ operandsInArgs boundedMinimum.args ++ operandsInArgs unboundedMinimum.args,
        operand.isValueChain = true) ∧
      (∃ method t u,
        boundedMinimum.callee minimumContext [1]
          { minimumState with depth := minimumState.depth + 1 } = .ok method t ∧
        boundedMinimum.complete minimumContext [1] method t = .ok () u) ∧
      ∃ e t, operation unboundedMinimum.op.name (unboundedMinimum.op.body minimumContext [1])
          minimumState = .error e t ∧ t = { minimumState with log := t.log } := by
  have reached : Reached minimumContext minimumState := .generate _ _ (.start rfl rfl rfl rfl)
  have chains : ∀ operand ∈ operandsInArgs boundedMinimum.args ++
      operandsInArgs unboundedMinimum.args, operand.isValueChain = true := by decide +kernel
  obtain ⟨bounded, unbounded⟩ := List.forall_mem_append.mp chains
  obtain ⟨method, t, checked⟩ : ∃ method t, boundedMinimum.callee minimumContext [1]
      { minimumState with depth := minimumState.depth + 1 } = .ok method t :=
    exists_ok_of_not_fails (by decide +kernel)
  obtain ⟨u, completed⟩ :=
    (Call.operation_atomic reached [1] boundedMinimum bounded).2 (by decide +kernel) method t
      checked
  obtain ⟨e, v, failed⟩ := exists_error_of_fails (x := operation unboundedMinimum.op.name
    (unboundedMinimum.op.body minimumContext [1])) (s := minimumState) (by decide +kernel)
  exact ⟨reached, chains, ⟨method, t, u, checked, completed⟩, e, v, failed,
    (Call.operation_atomic reached [1] unboundedMinimum unbounded).1 e v failed⟩

end Sample

end JvmAssembler
