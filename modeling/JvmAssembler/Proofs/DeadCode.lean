import Mathlib
import JvmAssembler.Proofs.ControlFlow
import JvmAssembler.Proofs.Steps

/-!
# No code where control cannot be

An operation is refused where control cannot be, and so are the parts of a
statement; but an operation does not ask again after its operands.  An operand
that returns, throws or loops for ever may therefore leave it to write
instructions that nothing reaches.

Main statement: if no operand of a method does that, then only labels stand
after a jump, return or throw, and the last instruction apart from labels is one
of these.
-/

namespace JvmAssembler

/-! ## Code without gaps -/

def Instr.isLabel : Instr → Bool
  | .label _ => true
  | _ => false

/-- The last instruction that is not a label. -/
def lastStep? (code : List Instr) : Option Instr :=
  code.findRev? fun instr => !instr.isLabel

/-- Only labels follow an instruction that control does not pass. -/
def NoGap (code : List Instr) : Prop :=
  code.IsChain fun instr next => instr.continues = true ∨ next.isLabel = true

/-- There is no gap in the code written so far, and control can be after it
exactly if it does not end with something that control does not pass. -/
structure State.Tight (s : State) : Prop where
  noGap : NoGap s.code
  continues : s.frame.alive = true → ∀ last ∈ s.code.getLast?, last.continues = true
  ended : s.frame.alive = false → ∃ last ∈ lastStep? s.code, last.continues = false

namespace State.Tight

variable {s t : State} {instr : Instr}

theorem congr (tight : s.Tight) (code : t.code = s.code)
    (alive : t.frame.alive = s.frame.alive) : t.Tight := by
  constructor
  · rw [code]
    exact tight.noGap
  · rw [code, alive]
    exact tight.continues
  · rw [code, alive]
    exact tight.ended

/-- Where control can be, any instruction may be written. -/
theorem append (tight : s.Tight) (alive : s.frame.alive = true)
    (code : t.code = s.code ++ [instr]) (alive' : t.frame.alive = instr.continues)
    (noLabel : instr.isLabel = false) : t.Tight := by
  constructor
  · rw [code]
    refine List.isChain_append.mpr ⟨tight.noGap, List.isChain_singleton _, ?_⟩
    intro last isLast _ _
    exact .inl (tight.continues alive last isLast)
  · rw [code, alive']
    simp
  · rw [code, alive']
    intro ends
    exact ⟨instr, by simp [lastStep?, noLabel], ends⟩

/-- A label may be written anywhere. -/
theorem label {label : Label} (tight : s.Tight) (code : t.code = s.code ++ [.label label])
    (alive : s.frame.alive = true → t.frame.alive = true) : t.Tight := by
  constructor
  · rw [code]
    refine List.isChain_append.mpr ⟨tight.noGap, List.isChain_singleton _, ?_⟩
    simp [Instr.isLabel]
  · rw [code]
    simp [Instr.continues]
  · rw [code]
    intro dead
    have dead' : s.frame.alive = false := by
      by_contra wasAlive
      rw [alive (by simpa using wasAlive)] at dead
      contradiction
    simpa [lastStep?, Instr.isLabel] using tight.ended dead'

end State.Tight

namespace Gen

/-! ## Actions where control can be -/

/-- What an action does where control can be: it leaves no gap.  If `stays` is
set, then control can be at its end too. -/
def Lives {α : Type} (stays : Bool) (x : Gen α) : Prop :=
  ∀ ⦃s a t⦄, x s = .ok a t → s.frame.alive = true →
    (s.Tight → t.Tight) ∧ (stays = true → t.frame.alive = true)

/-- Actions that leave no gap even where control cannot be. -/
def Anywhere {α : Type} (x : Gen α) : Prop :=
  ∀ ⦃s a t⦄, x s = .ok a t → s.Tight → t.Tight

variable {α β : Type} {ctx : Context} {s t u : State} {stays : Bool}

namespace Anywhere

/-- An action that is skipped where control cannot be. -/
theorem whenAlive {x : Gen Unit} (lives : Lives stays x) : Anywhere (whenAlive x) := by
  intro s a t run tight
  rcases whenAlive_eq_ok.mp run with ⟨alive, ran⟩ | ⟨-, rfl⟩
  · exact (lives ran alive).1 tight
  · exact tight

theorem place (label : Label) : Anywhere (place ctx label) := by
  intro s a t run tight
  cases alive : s.frame.alive with
  | true =>
      obtain ⟨marks, -, aliveEq, -⟩ := place_marks_of_alive alive run
      exact tight.label marks.instrs_eq fun _ => aliveEq
  | false =>
      obtain ⟨marks, -⟩ := place_marks_of_dead alive run
      exact tight.label marks.instrs_eq (by simp [alive])

theorem bind {x : Gen α} {f : α → Gen β} (first : Anywhere x) (second : ∀ a, Anywhere (f a)) :
    Anywhere (x >>= f) := by
  intro s b t run tight
  obtain ⟨a, u, ran, rest⟩ := bind_eq_ok.mp run
  exact second a rest (first ran tight)

end Anywhere

namespace Lives

theorem weaken {x : Gen α} (lives : Lives stays x) : Lives false x :=
  fun _ _ _ run alive => ⟨(lives run alive).1, nofun⟩

theorem pure (a : α) : Lives true (pure a : Gen α) := by
  intro s b t run alive
  obtain ⟨-, rfl⟩ := pure_eq_ok.mp run
  exact ⟨id, fun _ => alive⟩

theorem throw (e : Error) : Lives stays (throw e : Gen α) :=
  fun _ _ _ run => (throw_eq_ok.mp run).elim

theorem seq {x : Gen α} {f : α → Gen β} (first : Lives true x)
    (second : ∀ a, Returns x a → Lives stays (f a)) : Lives stays (x >>= f) := by
  intro s b t run alive
  obtain ⟨a, u, ran, rest⟩ := bind_eq_ok.mp run
  obtain ⟨tight, aliveAfter⟩ := first ran alive
  obtain ⟨tight', aliveAfter'⟩ := second a ⟨s, u, ran⟩ rest (aliveAfter rfl)
  exact ⟨tight' ∘ tight, aliveAfter'⟩

theorem bind {x : Gen α} {f : α → Gen β} (first : Lives true x)
    (second : ∀ a, Lives stays (f a)) : Lives stays (x >>= f) :=
  seq first fun a _ => second a

/-- After an action that may end the code, only what leaves no gap anywhere. -/
theorem andThen {x : Gen α} {f : α → Gen β} (first : Lives stays x)
    (second : ∀ a, Anywhere (f a)) : Lives false (x >>= f) := by
  intro s b t run alive
  obtain ⟨a, u, ran, rest⟩ := bind_eq_ok.mp run
  exact ⟨fun tight => second a rest ((first ran alive).1 tight), nofun⟩

/-- Actions that go on only if a check does not fail. -/
theorem check {condition : Prop} [Decidable condition] {e : Error} {next : Unit → Gen α}
    (lives : ¬condition → Lives stays (next ())) :
    Lives stays (if condition then (MonadExcept.throw e : Gen Unit) >>= next else next ()) := by
  intro s a t run
  obtain ⟨holds, ran⟩ := check_eq_ok.mp run
  exact lives holds ran

theorem onFrame {op : FrameOp α} (quiet : Frame.Quiet op) : Lives true (onFrame op) := by
  intro s a t run alive
  obtain ⟨frame, ran, rfl⟩ := onFrame_eq_ok.mp run
  have aliveEq := quiet.alive ran
  exact ⟨fun tight => tight.congr rfl aliveEq, fun _ => aliveEq.trans alive⟩

theorem emit {instr : Instr} (plain : instr.isPlain = true) : Lives true (emit ctx instr) := by
  intro s a t run alive
  have emits := emit_emits plain run
  have aliveEq := emits.alive_eq.trans alive
  have continues : instr.continues = true ∧ instr.isLabel = false := by
    cases instr <;> simp_all [Instr.isPlain, Instr.continues, Instr.isLabel]
  exact ⟨fun tight => tight.append alive emits.instrs_eq (aliveEq.trans continues.1.symm)
    continues.2, fun _ => aliveEq⟩

/-- A return or throw. -/
theorem finish {code : Opcode} (terminal : code.isTerminal = true) :
    Lives false (emitOp ctx code) := by
  intro s a t run alive
  obtain ⟨marks, -, dead⟩ := emit_ends terminal run
  refine ⟨fun tight => tight.append alive marks.instrs_eq ?_ rfl, nofun⟩
  simp [dead, Instr.continues, terminal]

theorem value {x : Gen Unit} (lives : Lives stays x) : Lives stays (value x) :=
  fun _ _ _ run => lives (value_eq_ok.mp run).1

theorem inScope {x : Gen Unit} (lives : Lives stays x) : Lives stays (inScope x) := by
  intro s a t run alive
  obtain ⟨u, start, rest, ran, -, rfl⟩ := inScope_eq_ok.mp run
  obtain ⟨tight, aliveAfter⟩ := lives ran alive
  exact ⟨fun before => (tight (before.congr rfl rfl)).congr rfl rfl, aliveAfter⟩

theorem operation {x : Gen Unit} (name : String) (lives : Lives stays x) :
    Lives stays (operation name x) := by
  intro s a t run alive
  obtain ⟨-, u, ran, rfl⟩ := operation_eq_ok.mp run
  obtain ⟨tight, aliveAfter⟩ := lives ran alive
  exact ⟨fun before => (tight (before.congr rfl rfl)).congr rfl rfl, aliveAfter⟩

theorem probe (operand : Operand) : Lives true (probe ctx operand) := by
  intro s a t run alive
  obtain ⟨frame, output, -⟩ := probe_ok run
  exact ⟨fun tight => tight.congr (by simp [State.code, output]) (by rw [frame]),
    fun _ => by rw [frame, alive]⟩

theorem jump (code : Opcode) (target : Label) : Lives (code != .goto) (jump ctx code target) := by
  intro s a t run alive
  obtain ⟨marks, -, aliveEq, -⟩ := jump_marks run
  rw [alive, Bool.true_and] at aliveEq
  exact ⟨fun tight => tight.append alive marks.instrs_eq aliveEq rfl, fun branches => by
    rw [aliveEq, branches]⟩

theorem guarded {x : Gen Unit} (lives : Lives stays x) : Lives stays (whenAlive x) := by
  intro s a t run alive
  rcases whenAlive_eq_ok.mp run with ⟨-, ran⟩ | ⟨dead, -⟩
  · exact lives ran alive
  · simp [alive] at dead

theorem newLabel : Lives true newLabel := by
  intro s a t run alive
  obtain ⟨-, rfl⟩ := newLabel_eq_ok.mp run
  exact ⟨fun tight => tight.congr rfl rfl, fun _ => alive⟩

end Lives

/-- Actions that end no code and place no label, and all of whose fragments let
control come through. -/
def straight : Plan where
  part _ _ x _ := Lives true x
  operand _ _ := True
  may kind := kind = .touches

theorem Lives.of_made {x x' : Gen α} {ctx' : Context} {live : Bool}
    (made : Made ctx ctx' straight live x x') : Lives true x := by
  induction made with
  | pure a => exact .pure a
  | throw e => exact .throw e
  | seq _ _ _ first second => exact first.seq second
  | whenAlive _ lives => exact lives.guarded
  | onFrame quiet _ | onLocals _ quiet => exact .onFrame quiet
  | emit plain _ => exact .emit plain
  | emitVar code slot _ => exact .emit rfl
  | receiver _ => exact .emit rfl
  | newLabel => exact .newLabel
  | @jump _ code target branches =>
      have falls : code ≠ .goto := branches.resolve_right StepKind.noConfusion
      exact bne_iff_ne.mpr falls ▸ Lives.jump code target
  | part lives | reached lives => exact lives
  | value lives => exact .value lives
  | inScope _ lives => exact .inScope lives
  | operation name lives => exact .operation name lives
  | probe _ => exact .probe _
  | finish _ _ ends => exact StepKind.noConfusion ends
  | place label places => exact StepKind.noConfusion places
  | load ref refers => exact StepKind.noConfusion refers
  | store target writes _ _ _ | declare name ty writes _ | declareUninit name ty writes
  | increment target step writes _ => exact StepKind.noConfusion writes

/-! ## Branches and statements -/

namespace Lives

theorem constBranch (value sense : Bool) (target : Label) :
    Lives false (constBranch ctx value sense target) := by
  unfold Gen.constBranch
  split
  · exact (jump .goto target).weaken
  · exact (pure ()).weaken

theorem untilDead {actions : List (Gen Unit)} (all : ∀ action ∈ actions, Lives false action) :
    Lives false (untilDead actions) := by
  induction actions with
  | nil => exact (pure ()).weaken
  | cons action rest ih =>
      have others := ih fun other mem => all other (by simp [mem])
      exact (all action (by simp)).andThen fun _ => .whenAlive others

section Junctions

variable {parts : List Branch}
  (all : ∀ part ∈ parts, ∀ sense target, Lives false (part sense target))

include all

theorem eachBranch (sense : Bool) (target : Label) :
    Lives false (eachBranch parts sense target) := by
  refine untilDead fun action mem => ?_
  obtain ⟨part, isPart, rfl⟩ := List.mem_map.mp mem
  exact all part isPart sense target

theorem lastBranch (sense : Bool) (target : Label) :
    Lives false (lastBranch ctx parts sense target) := by
  unfold Gen.lastBranch
  split
  · exact (jump .goto target).weaken
  · rename_i last isLast
    have others (skip : Label) : Lives false (Gen.eachBranch parts.dropLast (!sense) skip) :=
      eachBranch (fun part mem => all part (List.mem_of_mem_dropLast mem)) (!sense) skip
    have ofLast := all last (List.mem_of_getLast? isLast) sense target
    exact bind newLabel fun skip => (others skip).andThen fun _ =>
      .bind (.whenAlive ofLast) fun _ => .place skip

theorem conjBranch (sense : Bool) (target : Label) :
    Lives false (conjBranch ctx parts sense target) := by
  cases sense with
  | true => exact lastBranch all true target
  | false => exact eachBranch all false target

theorem disjBranch (sense : Bool) (target : Label) :
    Lives false (disjBranch ctx parts sense target) := by
  cases sense with
  | true => exact eachBranch all true target
  | false => exact lastBranch all false target

end Junctions

section Statements

variable {cond : Branch} (condition : ∀ sense target, Lives false (cond sense target))

include condition

theorem ifThen {body : Gen Unit} (lives : Lives false body) : Lives false (ifThen ctx cond body) :=
  bind newLabel fun stop => (condition false stop).andThen fun _ =>
    .bind (.whenAlive lives.inScope) fun _ => .place stop

theorem ifElse {body otherwise : Gen Unit} (first : Lives false body)
    (second : Lives false otherwise) : Lives false (ifElse ctx cond body otherwise) :=
  bind newLabel fun stop => bind newLabel fun elseLabel =>
    (condition false elseLabel).andThen fun _ => .bind (.whenAlive first.inScope) fun _ =>
      .bind (.whenAlive (jump .goto stop)) fun _ => .bind (.place elseLabel) fun _ =>
        .bind (.whenAlive second.inScope) fun _ => .place stop

theorem whileLoop {body : Gen Unit} (lives : Lives false body) :
    Lives false (whileLoop ctx cond body) := by
  have entered (start : Label) : Lives true (Gen.place ctx start) := fun _ _ _ run alive =>
    ⟨Anywhere.place start run, fun _ => (place_marks_of_alive alive run).2.2.1⟩
  exact bind newLabel fun start => bind newLabel fun stop => bind (entered start) fun _ =>
    (condition false stop).andThen fun _ =>
      .bind (.whenAlive (lives.inScope.andThen fun _ => .whenAlive (jump .goto start))) fun _ =>
        .place stop

/-- A conditional value: the first piece of code leaves control at its end, where
it jumps over the second. -/
theorem choose {first second : Gen Unit} (ofFirst : Lives true first)
    (ofSecond : Lives true second) :
    Lives false (do
      let elseLabel ← Gen.newLabel
      let stop ← Gen.newLabel
      cond false elseLabel
      whenAlive do
        first
        Gen.jump ctx .goto stop
      place ctx elseLabel
      whenAlive second
      place ctx stop) :=
  bind newLabel fun elseLabel => bind newLabel fun stop =>
    (condition false elseLabel).andThen fun _ =>
      .bind (.whenAlive (bind ofFirst fun _ => jump .goto stop)) fun _ =>
        .bind (.place elseLabel) fun _ => .bind (.whenAlive ofSecond) fun _ => .place stop

theorem conditional {thenArm elseArm : Operand} (first : Lives true thenArm.code)
    (second : Lives true elseArm.code) : Lives false (conditional ctx cond thenArm elseArm) := by
  refine bind (probe thenArm) fun thenType => bind (probe elseArm) fun elseType => ?_
  split
  · exact throw _
  · rename_i ty _
    have coerces : Made ctx ctx straight true (coerceTop ctx ty) (coerceTop ctx ty) :=
      .coerceTop ty
    exact choose condition (inScope (bind (value first) fun _ => of_made coerces))
      (inScope (bind (value second) fun _ => of_made coerces))

theorem condValue : Lives false (condValue ctx cond) := by
  have made (value : Bool) :
      Made ctx ctx straight true (boolean ctx value) (boolean ctx value) :=
    .boolean value
  exact choose condition (of_made (made true)) (of_made (made false))

end Statements

end Lives

end Gen

/-! ## Bodies -/

open Gen

/-- Nothing is generated where control cannot be. -/
theorem codeFrom_of_dead {ctx : Context} {pos : Position} {index : Nat} {ops : List Op}
    {s t : State}
    (dead : s.frame.alive = false) (run : codeFrom ctx pos index ops s = .ok () t) : s = t := by
  cases ops with
  | nil => exact (pure_eq_ok.mp run).2
  | cons op rest =>
      obtain ⟨_, u, ran, -⟩ := bind_eq_ok.mp run
      obtain ⟨alive, -⟩ := operation_eq_ok.mp ran
      rw [dead] at alive
      contradiction

/-- Operations that neither end the code nor choose between pieces of it. -/
def Op.isStraight : Op → Bool
  | .returnValue | .returnVoid | .throw | .ifThen .. | .ifElse .. | .whileLoop .. | .conditional ..
  | .condValue _ | .block _ => false
  | _ => true

/-- Wherever control can be at the start of the fragment, it can be at its end. -/
def Fragment.EndsAlive (ctx : Context) (fragment : Fragment) : Prop :=
  ∀ pos, KeepsAlive (fragment.code ctx pos)

/-- Control can be at the end of each of these fragments. -/
def AllEndAlive (ctx : Context) (fragments : List Fragment) : Prop :=
  ∀ fragment ∈ fragments, fragment.EndsAlive ctx

theorem AllEndAlive.mono {ctx : Context} {fragments fragments' : List Fragment}
    (all : AllEndAlive ctx fragments) (fewer : fragments' ⊆ fragments) :
    AllEndAlive ctx fragments' :=
  fun fragment mem => all fragment (fewer mem)

section

variable (ctx : Context)

/-- An operation without control flow of its own. -/
theorem Gen.Lives.simple {α : Type} {x : Gen α} (made : Made ctx ctx straight true x x) :
    Lives true x :=
  .of_made made

/-- Steps that end with a return or throw. -/
theorem Gen.Lives.returnValue : Lives false (returnValue ctx) := by
  unfold Gen.returnValue
  refine check fun hasValue => bind (.simple ctx (.coerceTop _)) fun _ =>
    bind (.simple ctx .pop) fun _ => ?_
  exact finish (Opcode.returnOf_isTerminal (by simpa using hasValue))

theorem Gen.Lives.returnVoid : Lives false (returnVoid ctx) := by
  unfold Gen.returnVoid
  exact check fun _ => finish (by decide)

theorem Gen.Lives.raise : Lives false (raise ctx) :=
  bind (.simple ctx .peek) fun _ => check fun _ => bind (.simple ctx .pop) fun _ => finish (by decide)

/-- The code of an operand, given what holds of it as of any fragment. -/
theorem Gen.Lives.ofOperand {pos : Position} {operand : Fragment}
    (stay : AllEndAlive ctx (operand :: operandsIn operand))
    (lives : AllEndAlive ctx (operandsIn operand) → Lives false (operand.code ctx pos)) :
    Lives true (operand.code ctx pos) := fun _ _ _ run alive =>
  ⟨(lives (stay.mono (List.subset_cons_self _ _)) run alive).1,
    fun _ => stay operand (by simp) pos run alive⟩

theorem Gen.Lives.branch {x : Gen Unit} (made : Made ctx ctx straight true x x) :
    Lives false x :=
  (Lives.of_made made).weaken

mutual

theorem Op.body_lives (pos : Position) :
    (op : Op) → AllEndAlive ctx op.operands → Lives op.isStraight (op.body ctx pos)
  | .constant value, _ => .simple ctx (.constant value)
  | .boolean value, _ => .simple ctx (.boolean value)
  | .null, _ => .simple ctx (.source (by decide) _)
  | .this, _ => .simple ctx .receiverLoad
  | .load source, _ => .simple ctx (.loadSteps rfl source)
  | .store target value, stay =>
      .simple ctx (.storeSteps rfl target (.ofOperand ctx stay (codeFrom_lives _ 0 value)))
  | .declare name type init, stay =>
      .simple ctx (.declareSteps rfl name type (.ofOperand ctx stay (codeFrom_lives _ 0 init)))
  | .declareUninit name type, _ => .simple ctx (.declareUninitSteps rfl name type)
  | .increment target step, _ => .simple ctx (.incrementSteps rfl target step)
  | .getField name, _ => .simple ctx (.getField name)
  | .putField name value, stay =>
      .simple ctx (.putField name (.ofOperand ctx stay (codeFrom_lives _ 0 value)))
  | .getStatic owner name, _ => .simple ctx (.getStatic owner name)
  | .putStatic owner name value, stay =>
      .simple ctx (.putStatic owner name (.ofOperand ctx stay (codeFrom_lives _ 0 value)))
  | .invoke name args, stay => .simple ctx (.invoke (operandsFrom_lives pos 0 args stay) name)
  | .invokeStatic owner name args, stay =>
      .simple ctx (.invokeStatic (operandsFrom_lives pos 0 args stay) owner name)
  | .construct type args, stay =>
      .simple ctx (.construct (operandsFrom_lives pos 0 args stay) type)
  | .superInit args, stay => .simple ctx (.superInit (operandsFrom_lives pos 0 args stay))
  | .newArray elem length, stay =>
      .simple ctx (.newArray elem (.ofOperand ctx stay (codeFrom_lives _ 0 length)))
  | .arrayLoad index, stay =>
      .simple ctx (.arrayLoad (.ofOperand ctx stay (codeFrom_lives _ 0 index)))
  | .arrayStore index value, stay =>
      .simple ctx (.arrayStore
        (.ofOperand ctx (stay.mono (by simp [Op.operands])) (codeFrom_lives _ 0 index))
        (.ofOperand ctx (stay.mono (by simp [Op.operands])) (codeFrom_lives _ 0 value)))
  | .arrayLength, _ => .simple ctx .arrayLength
  | .arith op right, stay =>
      .simple ctx (.arith op ⟨trivial, .ofOperand ctx stay (codeFrom_lives _ 0 right)⟩)
  | .negate, _ => .simple ctx .negate
  | .cast target, _ => .simple ctx (.castTop target)
  | .convert target, _ => .simple ctx (.coerceTop target)
  | .instanceOf type, _ => .simple ctx (.instanceOf type)
  | .pop, _ => .simple ctx .discard
  | .returnValue, _ => .returnValue ctx
  | .returnVoid, _ => .returnVoid ctx
  | .throw, _ => .raise ctx
  | .ifThen cond body, stay =>
      .ifThen (cond.branch_lives _ (stay.mono (by simp [Op.operands])))
        (codeFrom_lives _ 0 body (stay.mono (by simp [Op.operands])))
  | .ifElse cond body otherwise, stay =>
      .ifElse (cond.branch_lives _ (stay.mono (by simp [Op.operands])))
        (codeFrom_lives _ 0 body (stay.mono (by simp [Op.operands])))
        (codeFrom_lives _ 0 otherwise (stay.mono (by simp [Op.operands])))
  | .whileLoop cond body, stay =>
      .whileLoop (cond.branch_lives _ (stay.mono (by simp [Op.operands])))
        (codeFrom_lives _ 0 body (stay.mono (by simp [Op.operands])))
  | .conditional cond thenArm elseArm, stay =>
      have ⟨others, ofElse⟩ := List.forall_mem_append.mp stay
      have ⟨ofCond, ofThen⟩ := List.forall_mem_append.mp others
      .conditional (cond.branch_lives _ ofCond)
        (.ofOperand ctx ofThen (codeFrom_lives (1 :: pos) 0 thenArm))
        (.ofOperand ctx ofElse (codeFrom_lives (2 :: pos) 0 elseArm))
  | .condValue cond, stay => .condValue (cond.branch_lives _ stay)
  | .block body, stay => .inScope (codeFrom_lives _ 0 body stay)
  | .malformed _, _ => .throw _

theorem codeFrom_lives (pos : Position) (index : Nat) :
    (ops : List Op) → AllEndAlive ctx (operandsIn ops) → Lives false (codeFrom ctx pos index ops)
  | [], _ => (Lives.pure ()).weaken
  | op :: rest, stay => by
      have first := op.body_lives (index :: pos) (stay.mono (by simp [operandsIn]))
      have others := codeFrom_lives pos (index + 1) rest (stay.mono (by simp [operandsIn]))
      refine (Lives.operation op.name first).andThen fun _ s a t run tight => ?_
      cases alive : s.frame.alive with
      | true => exact (others run alive).1 tight
      | false => exact codeFrom_of_dead alive run ▸ tight

theorem operandsFrom_lives (pos : Position) (index : Nat) :
    (args : List (List Op)) → AllEndAlive ctx (operandsInArgs args) →
      List.Forall₂ (Made.OfOperand straight) (operandsFrom ctx pos index args)
        (operandsFrom ctx pos index args)
  | [], _ => .nil
  | arg :: rest, stay =>
      .cons ⟨trivial, .ofOperand ctx (stay.mono (by simp [operandsInArgs])) (codeFrom_lives _ 0 arg)⟩
        (operandsFrom_lives pos (index + 1) rest (stay.mono (by simp [operandsInArgs])))

theorem Cond.branch_lives (pos : Position) :
    (c : Cond) → AllEndAlive ctx c.operands → ∀ sense target,
      Lives false (c.branch ctx pos sense target)
  | .const value, _ => fun sense target => .constBranch value sense target
  | .truth value, stay => fun sense target =>
      .branch ctx (.truthBranch true (Lives.ofOperand ctx stay (codeFrom_lives _ 0 value)) sense target)
  | .falsity value, stay => fun sense target =>
      .branch ctx (.truthBranch false (Lives.ofOperand ctx stay (codeFrom_lives _ 0 value)) sense target)
  | .isNull value, stay => fun sense target =>
      .branch ctx (.nullBranch true ⟨trivial, Lives.ofOperand ctx stay (codeFrom_lives _ 0 value)⟩
        sense target)
  | .nonNull value, stay => fun sense target =>
      .branch ctx (.nullBranch false ⟨trivial, Lives.ofOperand ctx stay (codeFrom_lives _ 0 value)⟩
        sense target)
  | .compare op left right nan, stay => fun sense target =>
      .branch ctx (.compareBranch
        ⟨trivial, Lives.ofOperand ctx (stay.mono (by simp [Cond.operands])) (codeFrom_lives _ 0 left)⟩
        ⟨trivial, Lives.ofOperand ctx (stay.mono (by simp [Cond.operands])) (codeFrom_lives _ 0 right)⟩
        op nan sense target)
  | .conj parts, stay => fun sense target =>
      .conjBranch (branchesFrom_live pos 0 parts stay) sense target
  | .disj parts, stay => fun sense target =>
      .disjBranch (branchesFrom_live pos 0 parts stay) sense target

theorem branchesFrom_live (pos : Position) (index : Nat) :
    (parts : List Cond) → AllEndAlive ctx (operandsInParts parts) →
      ∀ branch ∈ branchesFrom ctx pos index parts, ∀ sense target,
        Lives false (branch sense target)
  | [], _ => nofun
  | part :: rest, stay => by
      intro branch mem
      rcases List.mem_cons.mp mem with rfl | isRest
      · exact part.branch_lives _ (stay.mono (by simp [operandsInParts]))
      · exact branchesFrom_live pos (index + 1) rest (stay.mono (by simp [operandsInParts])) _
          isRest

end

/-- Operations that let control through one by one let it through together. -/
theorem Fragment.EndsAlive.of_ops {ops : List Op}
    (all : ∀ op ∈ ops, ∀ pos, KeepsAlive (op.body ctx pos)) : Fragment.EndsAlive ctx ops := by
  intro pos
  suffices from_ : ∀ index, KeepsAlive (codeFrom ctx pos index ops) from from_ 0
  induction ops with
  | nil =>
      intro index s a t run alive
      obtain ⟨-, rfl⟩ := pure_eq_ok.mp run
      exact alive
  | cons op rest ih =>
      intro index s a t run alive
      obtain ⟨_, u, ran, run⟩ := bind_eq_ok.mp run
      obtain ⟨-, v, performed, rfl⟩ := operation_eq_ok.mp ran
      have through : v.frame.alive = true := all op (by simp) (index :: pos) performed alive
      exact ih (fun other mem => all other (by simp [mem])) (index + 1) run through

theorem Op.body_keepsAlive_of_straight {op : Op} (straight : op.isStraight = true)
    (stay : AllEndAlive ctx op.operands) (pos : Position) : KeepsAlive (op.body ctx pos) :=
  fun _ _ _ run alive => (op.body_lives ctx pos stay run alive).2 straight

/-- Whatever its body does, control comes past an `if` whose condition is a
value. -/
theorem Op.ifThen_truth_keepsAlive (value body : Fragment) (pos : Position) :
    KeepsAlive ((Op.ifThen (.truth value) body).body ctx pos) := by
  intro s _ t run alive
  obtain ⟨stop, s₁, labelled, run⟩ := bind_eq_ok.mp run
  obtain ⟨_, s₂, branched, run⟩ := bind_eq_ok.mp run
  obtain ⟨_, s₃, ran, placed⟩ := bind_eq_ok.mp run
  obtain ⟨shape, recorded⟩ : ∃ shape, s₂.shape? stop = some shape := by
    obtain ⟨_, _, -, branched⟩ := bind_eq_ok.mp branched
    obtain ⟨_, _, -, branched⟩ := bind_eq_ok.mp branched
    obtain ⟨_, _, -, jumped⟩ := bind_eq_ok.mp branched
    obtain ⟨-, -, -, records⟩ := jump_marks jumped
    exact ⟨_, (records.lookup_eq stop).trans (if_pos rfl)⟩
  have recorded : s₃.shape? stop = some shape := by
    rcases whenAlive_eq_ok.mp ran with ⟨-, entered⟩ | ⟨-, rfl⟩
    · obtain ⟨u, start, rest, inner, -, rfl⟩ := inScope_eq_ok.mp entered
      have kept := codeFrom_advances ctx (1 :: pos) 0 [] body List.suffix_rfl inner
      exact kept.shape_kept stop shape recorded
    · exact recorded
  cases alive : s₃.frame.alive with
  | true => exact (place_marks_of_alive alive placed).2.2.1
  | false =>
      rw [(place_marks_of_dead alive placed).2.2.1]
      simpa [State.shape?] using congrArg Option.isSome recorded

end

/-! ## Methods -/

namespace Gen

variable {ctx : Context} {spec : MethodSpec} {s t : State}

theorem Lives.bindParams (params : List (String × JType)) : Lives true (bindParams params) := by
  induction params with
  | nil => exact pure ()
  | cons param rest ih => exact bind (onFrame (.addLocal (some param.1) param.2)) fun _ => ih

/-- Closing a body ends its code. -/
theorem close_ends (tight : s.Tight) (run : whenAlive (close ctx spec) s = .ok () t) :
    t.Tight ∧ t.frame.alive = false := by
  rcases whenAlive_eq_ok.mp run with ⟨alive, ran⟩ | ⟨dead, rfl⟩
  · obtain ⟨-, -, ran⟩ := close_eq_ok ran
    have terminal : Opcode.returnVoid.isTerminal = true := by decide
    exact ⟨(Lives.finish terminal ran alive).1 tight, (emit_ends terminal ran).2.2⟩
  · exact ⟨tight, dead⟩

theorem method_tight {limits : Limits} (stay : AllEndAlive ctx (operandsIn spec.body))
    (run : method ctx spec {} = .ok limits t) :
    ∃ closed : State, t.output = closed.output ∧ closed.Tight ∧ closed.frame.alive = false := by
  obtain ⟨log, bound, generated, closed, binds, generates, closes, outputEq, -⟩ := method_eq_ok run
  have start : State.Tight { log } := by
    constructor <;> simp [State.code, NoGap]
  obtain ⟨boundTight, aliveBound⟩ := Lives.bindParams spec.bindings binds rfl
  have body := codeFrom_lives ctx [] 0 spec.body stay generates (aliveBound rfl)
  exact ⟨closed, outputEq, close_ends (body.1 (boundTight start)) closes⟩

end Gen

/-- In an assembled method only labels follow a jump, return or throw, and the
last instruction apart from labels is one of these, if control can be at the end
of every operand of the method. -/
theorem MethodSpec.noGap_of_assemble (cls : ClassContext) (spec : MethodSpec)
    (method : AssembledMethod)
    (stay : ∀ operand ∈ operandsIn spec.body, operand.EndsAlive (spec.context cls))
    (assembled : spec.assemble cls = .ok method) :
    NoGap method.instrs ∧
      ∃ last, lastStep? method.instrs = some last ∧ last.continues = false := by
  obtain ⟨limits, s, ran, rfl⟩ := exists_method_of_assemble assembled
  obtain ⟨closed, output, tight, dead⟩ := Gen.method_tight stay ran
  change NoGap s.output.instrs.toList ∧ ∃ last, lastStep? s.output.instrs.toList = some last ∧ _
  rw [output]
  exact ⟨tight.noGap, tight.ended dead⟩

namespace Sample

open Fragment

/-- `x = {if (done) return; 1}`: a variable whose first value may not be reached. -/
def returnOrInit : MethodSpec where
  name := "f"
  access := .publicStatic
  params := [("done", .boolean)]
  result := .void
  body := [.declare "x" .int (.ifThen (.truth (loadNamed "done")) [.returnVoid] :: int 1)]

/-- The operand returns on one of its paths, but control can be at its end. -/
theorem returnOrInit_noGap :
    (∀ operand ∈ operandsIn returnOrInit.body,
        operand.EndsAlive (returnOrInit.context (classContext "Demo" {}))) ∧
      ∃ method, returnOrInit.assemble (classContext "Demo" {}) = .ok method ∧
        NoGap method.instrs ∧
          ∃ last, lastStep? method.instrs = some last ∧ last.continues = false := by
  have succeeds : (returnOrInit.assemble (classContext "Demo" {})).isOk = true := by decide +kernel
  have stay : ∀ operand ∈ operandsIn returnOrInit.body,
      operand.EndsAlive (returnOrInit.context (classContext "Demo" {})) := by
    have load : Fragment.EndsAlive (returnOrInit.context (classContext "Demo" {}))
        (loadNamed "done") :=
      .of_ops _ fun op mem pos => by
        obtain rfl := List.mem_singleton.mp mem
        exact Op.body_keepsAlive_of_straight _ rfl (by simp [AllEndAlive, Op.operands]) pos
    have init : Fragment.EndsAlive (returnOrInit.context (classContext "Demo" {}))
        (.ifThen (.truth (loadNamed "done")) [.returnVoid] :: int 1) :=
      .of_ops _ fun op mem pos => by
        rcases List.mem_pair.mp mem with rfl | rfl
        · exact Op.ifThen_truth_keepsAlive _ _ _ pos
        · exact Op.body_keepsAlive_of_straight _ rfl (by simp [AllEndAlive, Op.operands]) pos
    intro operand mem
    rcases List.mem_pair.mp mem with rfl | rfl
    · exact init
    · exact load
  refine ⟨stay, ?_⟩
  cases assembled : returnOrInit.assemble (classContext "Demo" {}) with
  | error e => simp [assembled, Except.isOk, Except.toBool] at succeeds
  | ok method =>
      exact ⟨method, rfl, MethodSpec.noGap_of_assemble (classContext "Demo" {}) returnOrInit method
        stay assembled⟩

/-- A variable whose first value is the one below a returned value. -/
def returningInit : MethodSpec where
  name := "f"
  access := .publicStatic
  result := .int
  body := [.declare "x" .int [.constant (.int 1), .constant (.int 2), .returnValue]]

/-- The instructions and limits of `returningInit`. -/
def returningInitMethod : AssembledMethod :=
  returningInit.assembled (classContext "Demo" {})
    [.op .iconst1, .op (.iconst1 + 1), .op .ireturn, .var .istore 0] ⟨2, 1⟩

/-- An operand that returns is followed by a store that nothing reaches. -/
theorem returningInit_gap :
    returningInit.assemble (classContext "Demo" {}) = .ok returningInitMethod ∧
      ¬NoGap returningInitMethod.instrs ∧
      lastStep? returningInitMethod.instrs = some (.var .istore 0) := by
  refine ⟨by decide +kernel, ?_, by decide⟩
  unfold NoGap
  decide

end Sample

end JvmAssembler
