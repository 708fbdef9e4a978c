import Mathlib
import JvmAssembler.Proofs.HonestMemory
import JvmAssembler.Proofs.StackSoundness

/-!
# The memory of probed types is transparent

Main statement: where every operand, at any depth, is a value chain, a method is
generated in the same way as without memory, or fails with the same error.

The statements follow the recursion of the generator.  An operation starts with
a memory that holds nothing below its position, so that the memory is honest; it
need not be honest any more once the operation has written to a variable.
-/

namespace JvmAssembler

open Gen

/-! ## Value chains and conditions -/

/-- The operands below a position are value chains, and the fragments at their
positions are theirs. -/
structure Stands (ctx : Context) (codes : CodeAt) (pos : Position) (operands : List Fragment)
    (operandAt? : List Nat → Option Fragment) : Prop where
  chains : ∀ operand ∈ operands, operand.isValueChain = true
  code_at : ∀ path operand, operandAt? path = some operand →
    codes (path.reverse ++ pos) (codeFrom ctx.anew (path.reverse ++ pos) 0 operand)

/-- A value chain at a position, with its operands. -/
structure StandsOperand (ctx : Context) (codes : CodeAt) (pos : Position) (operand : Fragment) :
    Prop where
  chain : operand.isValueChain = true
  here : codes pos (codeFrom ctx.anew pos 0 operand)
  inner : Stands ctx codes pos (operandsIn operand) (operandIn? 0 operand)

section

variable {ctx : Context} {codes : CodeAt} {locals : LocalTable} {pos : Position}
variable {operands operands' : List Fragment}
variable {operandAt? operandAt?' : List Nat → Option Fragment}

namespace Stands

theorem mono (stands : Stands ctx codes pos operands operandAt?) (fewer : operands' ⊆ operands)
    (below : ∀ path operand, operandAt?' path = some operand → operandAt? path = some operand) :
    Stands ctx codes pos operands' operandAt?' where
  chains := fun operand mem => stands.chains operand (fewer mem)
  code_at := fun path operand found => stands.code_at path operand (below path operand found)

theorem child (stands : Stands ctx codes pos operands operandAt?) (step : Nat)
    (fewer : operands' ⊆ operands)
    (below : ∀ path operand, operandAt?' path = some operand →
      operandAt? (step :: path) = some operand) :
    Stands ctx codes (step :: pos) operands' operandAt?' where
  chains := fun operand mem => stands.chains operand (fewer mem)
  code_at := fun path operand found => by
    simpa using stands.code_at (step :: path) operand (below path operand found)

theorem operand (stands : Stands ctx codes pos operands operandAt?) (step : Nat)
    {operand : Fragment} (fewer : operand :: operandsIn operand ⊆ operands)
    (here : ∀ path, operandAt? (step :: path) =
      if path = [] then some operand else operandIn? 0 operand path) :
    StandsOperand ctx codes (step :: pos) operand where
  chain := stands.chains operand (fewer (by simp))
  here := stands.code_at [step] operand (by simp [here])
  inner := by
    refine stands.child step (fun inner mem => fewer (by simp [mem])) fun path inner found => ?_
    rw [here, if_neg, found]
    rintro rfl
    cases operand <;> simp [operandIn?] at found

end Stands

theorem StandsOperand.steps {operand : Fragment} (stands : StandsOperand ctx codes pos operand) :
    ∀ op ∈ operand, op.isValueStep = true :=
  Fragment.isValueStep_of_isValueChain stands.chain

theorem StandsOperand.ofOperand {operand : Fragment} (stands : StandsOperand ctx codes pos operand)
    (follows : Follows codes locals false (codeFrom ctx pos 0 operand)
      (codeFrom ctx.anew pos 0 operand)) :
    Made.OfOperand (remembering codes locals) ⟨pos, codeFrom ctx pos 0 operand⟩
      ⟨pos, codeFrom ctx.anew pos 0 operand⟩ := by
  have lifts : LiftsValue (codeFrom ctx.anew pos 0 operand) :=
    codeFrom_lifts ctx pos operand (List.forall_mem_cons.mpr ⟨stands.chain, stands.inner.chains⟩)
  exact ⟨⟨stands.here, follows, lifts⟩, follows⟩

/-- What is made of steps, with such operands, does what it does without memory. -/
def Transparent (ctx : Context) (codes : CodeAt) (locals : LocalTable) : Prop :=
  ∀ {live : Bool} {x x' : Gen Unit},
    Made ctx ctx.anew (remembering codes locals) live x x' → Follows codes locals live x x'

mutual

theorem Op.body_follows (closes : Transparent ctx codes locals) (pos : Position) :
    (op : Op) → op.isValueStep = true → Stands ctx codes pos op.operands op.operandAt? →
      Follows codes locals true (op.body ctx pos) (op.body ctx.anew pos)
  | .constant value, _, _ => closes (.constant value)
  | .boolean value, _, _ => closes (.boolean value)
  | .null, _, _ => closes (.source (by decide) _)
  | .this, _, _ => closes .receiverLoad
  | .load source, _, _ => closes (.load source trivial)
  | .getStatic owner name, _, _ => closes (.getStatic owner name)
  | .invokeStatic owner name args, _, stands =>
      closes (.invokeStatic (operandsFrom_follow closes pos 0 args stands) owner name)
  | .construct type args, _, stands =>
      closes (.construct (operandsFrom_follow closes pos 0 args stands) type)
  | .newArray elem length, _, stands =>
      have stands := stands.operand 0 (List.Subset.refl _) fun _ => rfl
      have follows := codeFrom_follows closes (0 :: pos) 0 length stands.steps stands.inner
      closes (.newArray elem follows)
  | .conditional cond thenArm elseArm, _, stands =>
      have standsCond := stands.child 0 (by simp [Op.operands]) fun _ _ => id
      have standsThen := stands.operand 1
        (List.Subset.trans (List.subset_append_right _ _) (List.subset_append_left _ _))
        fun _ => rfl
      have standsElse := stands.operand 2 (List.subset_append_right _ _) fun _ => rfl
      have followsThen :=
        codeFrom_follows closes (1 :: pos) 0 thenArm standsThen.steps standsThen.inner
      have followsElse :=
        codeFrom_follows closes (2 :: pos) 0 elseArm standsElse.steps standsElse.inner
      closes (.conditional (cond.branch_follows closes (0 :: pos) standsCond) trivial trivial
        (standsThen.ofOperand followsThen) (standsElse.ofOperand followsElse))
  | .condValue cond, _, stands =>
      have standsCond := stands.child 0 (by simp [Op.operands]) fun _ _ => id
      closes (.condValue (cond.branch_follows closes (0 :: pos) standsCond) trivial trivial)
  | .getField name, _, _ => closes (.getField name)
  | .invoke name args, _, stands =>
      closes (.invoke (operandsFrom_follow closes pos 0 args stands) name)
  | .arith op right, _, stands =>
      have stands := stands.operand 0 (List.Subset.refl _) fun _ => rfl
      have follows := codeFrom_follows closes (0 :: pos) 0 right stands.steps stands.inner
      closes (.arith op (stands.ofOperand follows))
  | .negate, _, _ => closes .negate
  | .cast target, _, _ => closes (.castTop target)
  | .convert target, _, _ => closes (.coerceTop target)
  | .instanceOf type, _, _ => closes (.instanceOf type)
  | .arrayLength, _, _ => closes .arrayLength
  | .arrayLoad index, _, stands =>
      have stands := stands.operand 0 (List.Subset.refl _) fun _ => rfl
      have follows := codeFrom_follows closes (0 :: pos) 0 index stands.steps stands.inner
      closes (.arrayLoad follows)
  | .store .., step, _ | .declare .., step, _ | .declareUninit .., step, _
  | .increment .., step, _ | .putField .., step, _ | .putStatic .., step, _
  | .superInit .., step, _ | .arrayStore .., step, _ | .pop, step, _ | .returnValue, step, _
  | .returnVoid, step, _ | .throw, step, _ | .ifThen .., step, _ | .ifElse .., step, _
  | .whileLoop .., step, _ | .block .., step, _ | .malformed .., step, _ =>
      absurd step Bool.false_ne_true

theorem codeFrom_follows (closes : Transparent ctx codes locals) (pos : Position) (index : Nat) :
    (ops : List Op) → (∀ op ∈ ops, op.isValueStep = true) →
      Stands ctx codes pos (operandsIn ops) (operandIn? index ops) →
      Follows codes locals false (codeFrom ctx pos index ops) (codeFrom ctx.anew pos index ops)
  | [], _, _ => .pure ()
  | op :: rest, steps, stands => by
      have standsOp : Stands ctx codes (index :: pos) op.operands op.operandAt? :=
        stands.child index (by simp [operandsIn]) fun path operand found => by
          simpa [operandIn?] using found
      have standsRest : Stands ctx codes pos (operandsIn rest) (operandIn? (index + 1) rest) :=
        stands.mono (by simp [operandsIn]) fun _ _ => operandIn?_cons_of_rest
      have first := op.body_follows closes (index :: pos) (steps op (by simp)) standsOp
      exact closes (.bind (.operation op.name first) fun _ =>
        .part (codeFrom_follows closes pos (index + 1) rest
          (fun op mem => steps op (by simp [mem])) standsRest))

theorem operandsFrom_follow (closes : Transparent ctx codes locals) (pos : Position) (index : Nat) :
    (args : List (List Op)) →
      Stands ctx codes pos (operandsInArgs args) (argumentAt? index args) →
      List.Forall₂ (Made.OfOperand (remembering codes locals)) (operandsFrom ctx pos index args)
        (operandsFrom ctx.anew pos index args)
  | [], _ => .nil
  | arg :: rest, stands => by
      have standsArg : StandsOperand ctx codes (index :: pos) arg :=
        stands.operand index (by simp [operandsInArgs]) fun path => by simp [argumentAt?]
      have follows := codeFrom_follows closes (index :: pos) 0 arg standsArg.steps standsArg.inner
      refine .cons (standsArg.ofOperand follows) ?_
      exact operandsFrom_follow closes pos (index + 1) rest
        (stands.mono (by simp [operandsInArgs]) fun _ _ => argumentAt?_cons_of_rest)

theorem Cond.branch_follows (closes : Transparent ctx codes locals) (pos : Position) :
    (c : Cond) → Stands ctx codes pos c.operands c.operandAt? →
      Made.OfBranch (remembering codes locals) (c.branch ctx pos) (c.branch ctx.anew pos)
  | .const value, _ => fun sense target => closes (.constBranch trivial value sense target)
  | .truth value, stands => fun sense target =>
      have stands := stands.operand 0 (List.Subset.refl _) fun _ => rfl
      have follows := codeFrom_follows closes (0 :: pos) 0 value stands.steps stands.inner
      closes (.truthBranch true follows sense target)
  | .falsity value, stands => fun sense target =>
      have stands := stands.operand 0 (List.Subset.refl _) fun _ => rfl
      have follows := codeFrom_follows closes (0 :: pos) 0 value stands.steps stands.inner
      closes (.truthBranch false follows sense target)
  | .isNull value, stands => fun sense target =>
      have stands := stands.operand 0 (List.Subset.refl _) fun _ => rfl
      have follows := codeFrom_follows closes (0 :: pos) 0 value stands.steps stands.inner
      closes (.nullBranch true (stands.ofOperand follows) sense target)
  | .nonNull value, stands => fun sense target =>
      have stands := stands.operand 0 (List.Subset.refl _) fun _ => rfl
      have follows := codeFrom_follows closes (0 :: pos) 0 value stands.steps stands.inner
      closes (.nullBranch false (stands.ofOperand follows) sense target)
  | .compare op left right nan, stands => fun sense target =>
      have standsLeft := stands.operand 0 (by simp [Cond.operands]) fun _ => rfl
      have standsRight := stands.operand 1 (by simp [Cond.operands]) fun _ => rfl
      have followsLeft :=
        codeFrom_follows closes (0 :: pos) 0 left standsLeft.steps standsLeft.inner
      have followsRight :=
        codeFrom_follows closes (1 :: pos) 0 right standsRight.steps standsRight.inner
      closes (.compareBranch (standsLeft.ofOperand followsLeft)
        (standsRight.ofOperand followsRight) op nan sense target)
  | .conj parts, stands => fun sense target =>
      closes (.conjBranch (branchesFrom_follow closes pos 0 parts stands) trivial trivial sense
        target)
  | .disj parts, stands => fun sense target =>
      closes (.disjBranch (branchesFrom_follow closes pos 0 parts stands) trivial trivial sense
        target)

theorem branchesFrom_follow (closes : Transparent ctx codes locals) (pos : Position) (index : Nat) :
    (parts : List Cond) →
      Stands ctx codes pos (operandsInParts parts) (operandInParts? index parts) →
      List.Forall₂ (Made.OfBranch (remembering codes locals)) (branchesFrom ctx pos index parts)
        (branchesFrom ctx.anew pos index parts)
  | [], _ => .nil
  | part :: rest, stands => by
      refine .cons (part.branch_follows closes (index :: pos) (stands.child index
        (by simp [operandsInParts]) fun path operand found => by
          simpa [operandInParts?] using found)) ?_
      exact branchesFrom_follow closes pos (index + 1) rest
        (stands.mono (by simp [operandsInParts]) fun _ _ => operandInParts?_cons_of_rest)

end

theorem StandsOperand.follows {operand : Fragment} (stands : StandsOperand ctx codes pos operand)
    (closes : Transparent ctx codes locals) :
    Follows codes locals false (codeFrom ctx pos 0 operand) (codeFrom ctx.anew pos 0 operand) :=
  codeFrom_follows closes pos 0 operand stands.steps stands.inner

end

/-! ## Operations without bodies -/

section

variable {ctx : Context} {codes : CodeAt} {locals : LocalTable} {scopes : List Nat}
variable {pos : Position} {operands : List Fragment} {operandAt? : List Nat → Option Fragment}
variable {s : State}

/-- The operands below a position, as they are generated without memory. -/
def codesAt (ctx : Context) (pos : Position) (operandAt? : List Nat → Option Fragment) : CodeAt :=
  fun p code => ∃ path operand, operandAt? path = some operand ∧ p = path.reverse ++ pos ∧
    code = codeFrom ctx.anew p 0 operand

theorem codesAt_unique (p : Position) (code code' : Gen Unit)
    (first : codesAt ctx pos operandAt? p code) (second : codesAt ctx pos operandAt? p code') :
    code = code' := by
  obtain ⟨path, operand, found, rfl, rfl⟩ := first
  obtain ⟨path', operand', found', same, rfl⟩ := second
  obtain rfl : path = path' := by simpa using same
  obtain rfl : operand = operand' := Option.some.inj (found.symm.trans found')
  rfl

theorem transparent_codesAt (mode : ctx.probing = .remembered) :
    Transparent ctx (codesAt ctx pos operandAt?) locals :=
  .of_made mode codesAt_unique

theorem stands_codesAt (chains : ∀ operand ∈ operands, operand.isValueChain = true) :
    Stands ctx (codesAt ctx pos operandAt?) pos operands operandAt? :=
  ⟨chains, fun path operand found => ⟨path, operand, found, rfl, rfl⟩⟩

/-- A memory that holds nothing for the operands is honest. -/
theorem sound_codesAt (matched : s.frame.locals.Matched)
    (unprobed : ∀ path operand, operandAt? path = some operand →
      s.probed[path.reverse ++ pos]? = none) :
    Sound (codesAt ctx pos operandAt?) s.frame.locals s.frame.scopes s := by
  refine ⟨rfl, matched, rfl, fun p ty code known isCode => ?_⟩
  obtain ⟨path, operand, found, rfl, -⟩ := isCode
  simp [unprobed path operand found] at known

namespace Gen

theorem Steady.of_true : Steady fun _ => True :=
  fun _ _ _ _ _ _ => trivial

theorem Steady.of_matched : Steady fun s => s.frame.locals.Matched := by
  intro s t matched locals _ _
  rwa [locals]

theorem Sound.matched_locals (sound : Sound codes locals scopes s) : s.frame.locals.Matched :=
  sound.locals_eq ▸ sound.matched

theorem Follows.shows {x x' : Gen Unit} (follows : Follows codes locals true x x') :
    Tracks (fun s => Sound codes locals scopes s ∧ s.frame.alive = true) (fun _ => True) x x' :=
  (follows scopes).mono (fun _ ⟨sound, alive⟩ => ⟨sound, fun _ => alive⟩) fun _ _ => trivial

/-- Steps without operands go on whatever is remembered. -/
theorem Tracks.of_made {α : Type} {x x' : Gen α} (mode : ctx.probing = .remembered)
    (made : ∀ plan, Made ctx ctx.anew plan false x x') :
    Tracks (fun s => s.frame.locals.Matched) (fun s => s.frame.locals.Matched) x x' := by
  intro s s' same matched
  have follows : Follows (fun _ _ => False) s.frame.locals false x x' :=
    .of_made mode (by simp) (made _)
  have sound : Sound (fun _ _ => False) s.frame.locals s.frame.scopes s :=
    ⟨rfl, matched, rfl, by simp⟩
  obtain ⟨agrees, after⟩ := follows.tracks same sound
  exact ⟨agrees, fun a t run => (after a t run).matched_locals⟩

theorem Follows.store {init init' : Gen Unit} (follows : Follows codes locals false init init')
    (mode : ctx.probing = .remembered) (target : LocalRef) :
    Tracks (Sound codes locals scopes) (fun _ => True) (store ctx target init)
      (store ctx.anew target init') := by
  refine (Sound.steady.storeTarget target).bind fun ⟨slot, declared⟩ =>
    follows.tracks.value.bind fun ty => ?_
  have ends : Tracks (fun _ => True) (fun _ => True) (storeSlot ctx slot)
      (storeSlot ctx.anew slot) :=
    Steady.of_true.storeSlot slot
  cases declared with
  | some declared =>
      have converts := Tracks.of_made mode fun _ => .coerceTop declared
      exact (converts.mono (fun _ => Sound.matched_locals) fun _ _ => trivial).bind fun _ => ends
  | none => exact Tracks.bind (.onFrame fun _ _ _ _ _ => trivial) fun _ => ends

theorem Follows.declare {init init' : Gen Unit} (follows : Follows codes locals false init init')
    (mode : ctx.probing = .remembered) (name : String) (ty : JType) :
    Tracks (Sound codes locals scopes) (fun _ => True) (declare ctx name ty init)
      (declare ctx.anew name ty init') := by
  have begins : Tracks (Sound codes locals scopes) (fun s => s.frame.locals.Matched)
      (Gen.value init) (Gen.value init') :=
    follows.tracks.value.mono (fun _ => id) fun _ => Sound.matched_locals
  exact begins.bind fun _ => (Tracks.of_made mode fun _ => .coerceTop ty).bind fun _ =>
    Tracks.bind (.onFrame fun _ _ _ _ _ => trivial) fun slot => Steady.of_true.storeSlot slot

theorem declareUninit_tracks (name : String) (ty : JType) :
    Tracks (fun _ => True) (fun _ => True) (declareUninit name ty) (declareUninit name ty) :=
  Tracks.bind (.onFrame fun _ _ _ _ _ => trivial) fun _ => .pure ()

theorem increment_tracks (mode : ctx.probing = .remembered) (target : LocalRef) (step : Int32) :
    Tracks (fun s => s.frame.locals.Matched) (fun s => s.frame.locals.Matched)
      (increment ctx target step) (increment ctx.anew target step) := by
  have steady := Steady.of_matched
  refine (steady.slotOf target).bind fun slot =>
    (steady.onFrame (.localType slot)).bind fun ty => ?_
  cases ty.asPrimitive?.filter Primitive.isNumeric with
  | none => exact .throw _
  | some p =>
      exact (steady.loadSlot slot ty).bind fun _ =>
        (Tracks.of_made mode fun _ => .constant _).bind fun _ =>
          (steady.onFrame (.popN 2)).bind fun _ => (steady.emit _).bind fun _ =>
            (steady.onFrame (.push _)).bind fun _ =>
              (Tracks.of_made mode fun _ => .castTop ty).bind fun _ => steady.storeSlot slot

end Gen

theorem Op.body_tracks_of_unstructured (mode : ctx.probing = .remembered) {op : Op}
    (unstructured : op.isStructured = false)
    (chains : ∀ operand ∈ op.operands, operand.isValueChain = true) :
    Tracks (fun s => Unseen s pos 0 ∧ s.frame.alive = true) (fun _ => True) (op.body ctx pos)
      (op.body ctx.anew pos) := by
  intro s s' same ⟨unseen, alive⟩
  have closes : Transparent ctx (codesAt ctx pos op.operandAt?) s.frame.locals :=
    transparent_codesAt mode
  have stands : Stands ctx (codesAt ctx pos op.operandAt?) pos op.operands op.operandAt? :=
    stands_codesAt chains
  have sound : Sound (codesAt ctx pos op.operandAt?) s.frame.locals s.frame.scopes s :=
    sound_codesAt unseen.matched fun path operand found => by
      obtain ⟨child, rest, rfl⟩ := op.exists_step_of_operandAt? found
      simpa using unseen.unprobed.getElem?_eq_none (Nat.zero_le child) rest
  have shows {x x' : Gen Unit}
      (follows : Follows (codesAt ctx pos op.operandAt?) s.frame.locals true x x') :=
    follows.shows same ⟨sound, alive⟩
  by_cases isStep : op.isValueStep = true
  · exact shows (op.body_follows closes pos isStep stands)
  cases op with
  | store target value =>
      have stands := stands.operand 0 (List.Subset.refl _) fun _ => rfl
      exact (stands.follows closes).store mode target same sound
  | declare name type init =>
      have stands := stands.operand 0 (List.Subset.refl _) fun _ => rfl
      exact (stands.follows closes).declare mode name type same sound
  | declareUninit name type => exact declareUninit_tracks name type same trivial
  | increment target step =>
      exact ((increment_tracks mode target step).mono (fun _ => id) fun _ _ => trivial) same
        unseen.matched
  | putField name value =>
      have stands := stands.operand 0 (List.Subset.refl _) fun _ => rfl
      exact shows (closes (.putField name (stands.follows closes)))
  | putStatic owner name value =>
      have stands := stands.operand 0 (List.Subset.refl _) fun _ => rfl
      exact shows (closes (.putStatic owner name (stands.follows closes)))
  | superInit args =>
      exact shows (closes (.superInit (operandsFrom_follow closes pos 0 args stands)))
  | arrayStore index value =>
      have standsIndex := stands.operand 0 (List.subset_append_left _ _) fun _ => rfl
      have standsValue := stands.operand 1 (List.subset_append_right _ _) fun _ => rfl
      exact shows (closes (.arrayStore (standsIndex.follows closes) (standsValue.follows closes)))
  | pop => exact shows (closes .discard)
  | returnValue => exact shows (closes (.returnValue trivial))
  | returnVoid => exact shows (closes (.returnVoid trivial))
  | throw => exact shows (closes (.raise trivial))
  | malformed reason => exact shows (closes (.throw _))
  | ifThen | ifElse | whileLoop | block => contradiction
  | _ => exact absurd rfl isStep

theorem Cond.branch_tracks (mode : ctx.probing = .remembered) {c : Cond}
    (chains : ∀ operand ∈ c.operands, operand.isValueChain = true) (sense : Bool)
    (target : Label) :
    Tracks (fun s => Unseen s pos 0 ∧ s.frame.alive = true) (Unseen · pos 1)
      (c.branch ctx (0 :: pos) sense target) (c.branch ctx.anew (0 :: pos) sense target) := by
  intro s s' same ⟨unseen, alive⟩
  have sound : Sound (codesAt ctx (0 :: pos) c.operandAt?) s.frame.locals s.frame.scopes s :=
    sound_codesAt unseen.matched fun path operand _ =>
      unseen.unprobed.getElem?_eq_none (Nat.le_refl 0) path
  have closes : Transparent ctx (codesAt ctx (0 :: pos) c.operandAt?) s.frame.locals :=
    transparent_codesAt mode
  have follows : Follows _ _ true _ _ :=
    c.branch_follows closes (0 :: pos) (stands_codesAt chains) sense target
  refine ⟨(follows.shows same ⟨sound, alive⟩).1, fun a t run => ?_⟩
  exact unseen.advance (c.branch_advances ctx (0 :: pos) List.suffix_rfl
    (List.mem_singleton_self target) sense) (c.branch_keepsMatched ctx _ sense target) run

end

/-! ## Operations with bodies -/

namespace Gen

variable {ctx : Context} {pos : Position} {index : Nat} {x x' : Gen Unit}
variable {cond cond' : Branch} {body body' otherwise otherwise' : Gen Unit}

theorem Unseen.steady : Steady (Unseen · pos index) :=
  fun _ _ unseen locals _ memory => unseen.congr memory locals

/-- What is remembered in between is below the position of the child. -/
theorem Tracks.advance {pre : State → Prop} (tracks : Tracks pre (fun _ => True) x x')
    (advances : Advances (index :: pos) [] x) (keeps : KeepsMatched x)
    (unseen : ∀ s, pre s → Unseen s pos index) : Tracks pre (Unseen · pos (index + 1)) x x' :=
  fun s _ same holds =>
    ⟨(tracks same holds).1, fun _ _ run => (unseen s holds).advance advances keeps run⟩

/-- Branches that show the same in a state that remembers nothing of them. -/
def BranchTracks (pos : Position) (index : Nat) (cond cond' : Branch) : Prop :=
  ∀ sense target, Tracks (fun s => Unseen s pos index ∧ s.frame.alive = true)
    (Unseen · pos (index + 1)) (cond sense target) (cond' sense target)

/-- Bodies that show the same in a state that remembers nothing of them. -/
def BodyTracks (pos : Position) (index : Nat) (body body' : Gen Unit) : Prop :=
  Tracks (Unseen · pos index) (Unseen · pos (index + 1)) body body'

theorem BodyTracks.inScope (tracks : BodyTracks pos index body body') :
    BodyTracks pos index (inScope body) (inScope body') :=
  Tracks.inScope (fun _ unseen => ⟨unseen.unprobed, unseen.matched⟩) tracks fun _ start _ unseen _ =>
    ⟨unseen.unprobed, unseen.matched.take start⟩

theorem BodyTracks.whenAlive (tracks : BodyTracks pos index body body') :
    BodyTracks pos index (whenAlive body) (whenAlive body') :=
  Tracks.whenAlive (tracks.mono (fun _ => And.left) fun _ => id)
    fun _ => Unseen.skip

theorem jumpWhenAlive_tracks (target : Label) :
    Tracks (Unseen · pos index) (Unseen · pos index) (whenAlive (jump ctx .goto target))
      (whenAlive (jump ctx.anew .goto target)) :=
  .whenAlive ((Unseen.steady.jump .goto target).mono (fun _ => And.left) fun _ => id) fun _ => id

theorem ifThen_tracks (tests : BranchTracks pos index cond cond')
    (tracks : BodyTracks pos (index + 1) body body') :
    Tracks (fun s => Unseen s pos index ∧ s.frame.alive = true) (Unseen · pos (index + 2))
      (ifThen ctx cond body) (ifThen ctx.anew cond' body') :=
  (Unseen.steady.newLabel.reached .newLabel).bind fun stop =>
    (tests false stop).bind fun _ => tracks.inScope.whenAlive.bind fun _ =>
      Unseen.steady.place stop

theorem ifElse_tracks (tests : BranchTracks pos index cond cond')
    (tracks : BodyTracks pos (index + 1) body body')
    (otherwiseTracks : BodyTracks pos (index + 2) otherwise otherwise') :
    Tracks (fun s => Unseen s pos index ∧ s.frame.alive = true) (Unseen · pos (index + 3))
      (ifElse ctx cond body otherwise) (ifElse ctx.anew cond' body' otherwise') :=
  (Unseen.steady.newLabel.reached .newLabel).bind fun stop =>
    (Unseen.steady.newLabel.reached .newLabel).bind fun elseLabel =>
      (tests false elseLabel).bind fun _ => tracks.inScope.whenAlive.bind fun _ =>
        (jumpWhenAlive_tracks stop).bind fun _ => (Unseen.steady.place elseLabel).bind fun _ =>
          otherwiseTracks.inScope.whenAlive.bind fun _ => Unseen.steady.place stop

theorem whileLoop_tracks (tests : BranchTracks pos index cond cond')
    (tracks : BodyTracks pos (index + 1) body body') :
    Tracks (fun s => Unseen s pos index ∧ s.frame.alive = true) (Unseen · pos (index + 2))
      (whileLoop ctx cond body) (whileLoop ctx.anew cond' body') := by
  refine (Unseen.steady.newLabel.reached .newLabel).bind fun start =>
    (Unseen.steady.newLabel.reached .newLabel).bind fun stop =>
      ((Unseen.steady.place start).reached (.place ctx start)).bind fun _ =>
        (tests false stop).bind fun _ => Tracks.bind ?_ fun _ => Unseen.steady.place stop
  have loop : BodyTracks pos (index + 1)
      (do inScope body; whenAlive (jump ctx .goto start))
      (do inScope body'; whenAlive (jump ctx.anew .goto start)) :=
    Tracks.bind tracks.inScope fun _ => jumpWhenAlive_tracks start
  exact loop.whenAlive

end Gen

section

variable {ctx : Context}

/-- A body that is the child of an operation. -/
theorem bodyTracks_child {pos : Position} {child : Nat} {ops : List Op}
    (tracks : Tracks (Unseen · (child :: pos) 0) (fun _ => True)
      (codeFrom ctx (child :: pos) 0 ops) (codeFrom ctx.anew (child :: pos) 0 ops)) :
    BodyTracks pos child (codeFrom ctx (child :: pos) 0 ops)
      (codeFrom ctx.anew (child :: pos) 0 ops) := by
  have entered := tracks.mono (fun _ unseen => Unseen.inner unseen (Nat.le_refl child)) fun _ => id
  exact entered.advance (codeFrom_advances ctx (child :: pos) 0 [] ops List.suffix_rfl)
    (codeFrom_keepsMatched ctx _ 0 ops) fun _ => id

mutual

theorem Op.body_tracks (mode : ctx.probing = .remembered) (pos : Position) :
    (op : Op) → (∀ operand ∈ op.operands, operand.isValueChain = true) →
      Tracks (fun s => Unseen s pos 0 ∧ s.frame.alive = true) (fun _ => True) (op.body ctx pos)
        (op.body ctx.anew pos)
  | .ifThen cond body, chains =>
      have tests := cond.branch_tracks mode fun f mem => chains f (by simp [Op.operands, mem])
      have tracks := codeFrom_tracks mode (1 :: pos) 0 body
        fun f mem => chains f (by simp [Op.operands, mem])
      (ifThen_tracks tests (bodyTracks_child tracks)).mono (fun _ => id) fun _ _ => trivial
  | .ifElse cond body otherwise, chains =>
      have tests := cond.branch_tracks mode fun f mem => chains f (by simp [Op.operands, mem])
      have tracks := codeFrom_tracks mode (1 :: pos) 0 body
        fun f mem => chains f (by simp [Op.operands, mem])
      have otherwiseTracks := codeFrom_tracks mode (2 :: pos) 0 otherwise
        fun f mem => chains f (by simp [Op.operands, mem])
      (ifElse_tracks tests (bodyTracks_child tracks) (bodyTracks_child otherwiseTracks)).mono
        (fun _ => id) fun _ _ => trivial
  | .whileLoop cond body, chains =>
      have tests := cond.branch_tracks mode fun f mem => chains f (by simp [Op.operands, mem])
      have tracks := codeFrom_tracks mode (1 :: pos) 0 body
        fun f mem => chains f (by simp [Op.operands, mem])
      (whileLoop_tracks tests (bodyTracks_child tracks)).mono (fun _ => id) fun _ _ => trivial
  | .block body, chains =>
      have tracks := codeFrom_tracks mode (0 :: pos) 0 body
        fun f mem => chains f (by simp [Op.operands, mem])
      (bodyTracks_child tracks).inScope.mono (fun _ => And.left) fun _ _ => trivial
  | .constant _, chains | .boolean _, chains | .null, chains | .this, chains | .load _, chains
  | .store .., chains | .declare .., chains | .declareUninit .., chains | .increment .., chains
  | .getField _, chains | .putField .., chains | .getStatic .., chains | .putStatic .., chains
  | .invoke .., chains | .invokeStatic .., chains | .construct .., chains | .superInit _, chains
  | .newArray .., chains | .arrayLoad _, chains | .arrayStore .., chains | .arrayLength, chains
  | .arith .., chains | .negate, chains | .cast _, chains | .convert _, chains
  | .instanceOf _, chains | .pop, chains | .returnValue, chains | .returnVoid, chains
  | .throw, chains | .conditional .., chains | .condValue _, chains | .malformed _, chains =>
      Op.body_tracks_of_unstructured mode rfl chains

theorem codeFrom_tracks (mode : ctx.probing = .remembered) (pos : Position) (index : Nat) :
    (ops : List Op) → (∀ operand ∈ operandsIn ops, operand.isValueChain = true) →
      Tracks (Unseen · pos index) (fun _ => True) (codeFrom ctx pos index ops)
        (codeFrom ctx.anew pos index ops)
  | [], _ => (Tracks.pure ()).mono (fun _ => id) fun _ _ => trivial
  | op :: rest, chains => by
      have inner := op.body_tracks mode (index :: pos)
        fun f mem => chains f (by simp [operandsIn, mem])
      have first : Tracks (Unseen · pos index) (fun _ => True)
          (operation op.name (op.body ctx (index :: pos)))
          (operation op.name (op.body ctx.anew (index :: pos))) :=
        .operation op.name
          (fun _ unseen alive => ⟨(unseen.inner (Nat.le_refl index)).congr rfl rfl, alive⟩)
          inner fun _ _ _ => trivial
      have advances := Advances.operation op.name (op.body_advances ctx (index :: pos) [])
      have keeps := KeepsMatched.operation op.name (op.body_keepsMatched ctx (index :: pos))
      exact (first.advance advances keeps fun _ => id).bind fun _ =>
        codeFrom_tracks mode pos (index + 1) rest
          fun f mem => chains f (by simp [operandsIn, mem])

end

end

/-! ## Methods -/

namespace Gen

variable {ctx : Context} {spec : MethodSpec} {inv : State → Prop}

theorem note_tracks (line : LogLine) (steady : Steady inv) :
    Tracks inv inv (note line) (note line) := by
  intro s s' same holds
  refine ⟨.ok ⟨same.frame, same.output⟩, fun a t run => ?_⟩
  cases run
  exact steady holds rfl rfl rfl

theorem bindParams_tracks (pos : Position) (index : Nat) (params : List (String × JType)) :
    Tracks (Unseen · pos index) (Unseen · pos index) (bindParams params)
      (bindParams params) := by
  induction params with
  | nil => exact .pure ()
  | cons param rest ih =>
      have matched := (Frame.Quiet.addLocal (some param.1) param.2).matched
      exact Tracks.bind (.onFrame fun s _ _ unseen added =>
        ⟨unseen.unprobed, FrameOp.leaves_of_ok added ▸ matched s.frame unseen.matched⟩) fun _ => ih

theorem close_tracks :
    Tracks (fun _ => True) (fun _ => True) (close ctx spec) (close ctx.anew spec) := by
  unfold close
  refine .check (.get fun s s' same => ?_)
  rw [same.frame]
  exact .check (Steady.of_true.emit _)

/-- The memory does not show in the method. -/
theorem method_tracks (mode : ctx.probing = .remembered)
    (chains : ∀ operand ∈ operandsIn spec.body, operand.isValueChain = true) :
    Tracks (Unseen · [] 0) (fun _ => True) (method ctx spec) (method ctx.anew spec) := by
  have closes : Tracks (fun _ => True) (fun _ => True) (whenAlive (close ctx spec))
      (whenAlive (close ctx.anew spec)) :=
    .whenAlive (close_tracks.mono (fun _ _ => trivial) fun _ => id) fun _ => id
  unfold method
  refine (note_tracks _ Unseen.steady).bind fun _ => .optional (bindParams_tracks [] 0 _)
    ((bindParams_tracks [] 0 spec.params).bind fun _ =>
      (codeFrom_tracks mode [] 0 spec.body chains).bind fun _ => closes.bind fun _ =>
        .get fun s s' same => ?_)
  rw [same.frame]
  exact (note_tracks _ Steady.of_true).bind fun _ => .pure _

end Gen

namespace MethodSpec

/-- What a run gives: the instructions and limits of the method, or the error. -/
def outcome : EStateM.Result Error State Limits → Except Error (List Instr × Limits)
  | .ok limits s => .ok (s.output.instrs.toList, limits)
  | .error error _ => .error error

/-- The memory of probed types is transparent: a method in whose body every
operand, at any depth, is a value chain is generated with the same instructions
and limits, or fails with the same error, if every operand is probed anew. -/
theorem outcome_run_anew (cls : ClassContext) (spec : MethodSpec) (output : Output)
    (chains : ∀ operand ∈ operandsIn spec.body, operand.isValueChain = true) :
    outcome (spec.run (spec.context cls) output) =
      outcome (spec.run (spec.context cls).anew output) := by
  have tracks := method_tracks (rfl : (spec.context cls).probing = .remembered) chains
  have same : State.Matches { output } { output } := ⟨rfl, rfl⟩
  have agrees := (tracks same ⟨by simp [Unprobed], rfl⟩).1
  unfold MethodSpec.run
  generalize method (spec.context cls) spec { output } = result at agrees ⊢
  generalize method (spec.context cls).anew spec { output } = result' at agrees ⊢
  cases agrees with
  | ok same => simp [outcome, same.output]
  | error same _ => rw [outcome, outcome, same]

end MethodSpec

namespace Sample

open Fragment

/-- `return a + (b + c);` -/
def nestedSum : MethodSpec where
  name := "sum"
  access := .publicStatic
  params := [("a", .int), ("b", .int), ("c", .int)]
  result := .int
  body :=
    loadNamed "a" ++ [.arith .add (loadNamed "b" ++ [.arith .add (loadNamed "c")]), .returnValue]

/-- The method in a class whose configuration logs every instruction. -/
def nestedSumContext : Context :=
  nestedSum.context (classContext "Demo" { debugCode := true })

/-- The number of lines that a run logs. -/
def logged : EStateM.Result Error State Limits → Nat
  | .ok _ s | .error _ s => s.log.size

/-- The innermost operand is probed in the dry run of the operand around it and
in the run itself.  The memory saves one dry run, which shows in the log. -/
theorem nestedSum_outcome_anew :
    (∀ operand ∈ operandsIn nestedSum.body, operand.isValueChain = true) ∧
      logged (nestedSum.run nestedSumContext {}) <
        logged (nestedSum.run nestedSumContext.anew {}) ∧
      MethodSpec.outcome (nestedSum.run nestedSumContext {}) =
        MethodSpec.outcome (nestedSum.run nestedSumContext.anew {}) := by
  have chains : ∀ operand ∈ operandsIn nestedSum.body, operand.isValueChain = true := by
    decide +kernel
  exact ⟨chains, by decide +kernel, MethodSpec.outcome_run_anew _ nestedSum {} chains⟩

end Sample

end JvmAssembler
