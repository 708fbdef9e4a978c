import Mathlib
import JvmAssembler.Proofs.Effects
import JvmAssembler.Proofs.Operands
import JvmAssembler.Proofs.Parallel

/-!
# Bodies are made of the same steps wherever they stand

One lemma for each action of the generator says that it is alike to itself, with
alike fragments and branches in place of its own.  For bodies at two positions
this follows by recursion: the positions of their operands must correspond.

Branches may also be compared with opposite senses, which is how conditions
relate to their negations.
-/

namespace JvmAssembler

/-- The operator, negated if `flip` is set. -/
def RelOp.flipped (op : RelOp) (flip : Bool) : RelOp :=
  if flip then op.negate else op

theorem JType.of_typecode (ty : JType) (property : UInt8 → Prop)
    (primitive : ∀ p : Primitive, property p.typecode) (void : property 8)
    (reference : property 4) : property ty.typecode := by
  cases ty with
  | primitive p => exact primitive p
  | void => exact void
  | _ => exact reference

namespace Opcode

theorem arrayLoadOf_ne_goto (ty : JType) : arrayLoadOf ty ≠ goto :=
  ty.of_typecode (iaload + · ≠ goto) (fun p => by cases p <;> decide) (by decide) (by decide)

theorem arrayStoreOf_ne_goto (ty : JType) : arrayStoreOf ty ≠ goto :=
  ty.of_typecode (iastore + · ≠ goto) (fun p => by cases p <;> decide) (by decide) (by decide)

theorem returnOf_ne_goto (ty : JType) : returnOf ty ≠ goto :=
  ty.of_typecode (ireturn + truncate · ≠ goto) (fun p => by cases p <;> decide) (by decide)
    (by decide)

end Opcode

namespace Gen

namespace Alike

variable {ctx : Context} {pairing : Pairing}

/-! ## Conversions -/

theorem convertTop (source target : JType) :
    Alike ctx pairing (convertTop ctx source target (conversion ctx source target))
      (convertTop ctx source target (conversion ctx source target)) := by
  rw [convertTop_conversion]
  refine ite (pure ()) (ite (throw _) (bind (emitAll fun instr mem => ?_) fun _ =>
    onFrame (.replaceTop target)))
  exact Instr.isMark_of_isPlain (Conversion.instrs_plain _ source target instr mem)

theorem coerceTop (target : JType) :
    Alike ctx pairing (coerceTop ctx target) (coerceTop ctx target) :=
  bind peek fun source => ite (convertTop source target) (throw _)

theorem castTop (target : JType) : Alike ctx pairing (castTop ctx target) (castTop ctx target) := by
  rw [castTop_eq]
  exact bind peek fun source => convertTop source target

/-! ## Operands -/

/-- Operands at corresponding positions whose code is alike. -/
structure OfOperand (ctx : Context) (pairing : Pairing) (operand operand' : Operand) : Prop where
  positions : pairing.positions operand.position operand'.position
  code : Alike ctx pairing operand.code operand'.code

theorem ofOperand {pos pos' : Position} {code code' : Gen Unit}
    (positions : pairing.positions pos pos') (alike : Alike ctx pairing code code') :
    OfOperand ctx pairing ⟨pos, code⟩ ⟨pos', code'⟩ :=
  ⟨positions, alike⟩

theorem probe {operand operand' : Operand} (alike : OfOperand ctx pairing operand operand') :
    Alike ctx pairing (probe ctx operand) (probe ctx operand') :=
  fun _ _ _ => .probe alike.positions (alike.code false [] [])

theorem probeAll {args args' : List Operand}
    (alike : List.Forall₂ (OfOperand ctx pairing) args args') :
    Alike ctx pairing (probeAll ctx args) (probeAll ctx args') := by
  induction alike with
  | nil => exact pure []
  | cons first _ ih => exact bind (probe first) fun _ => bind ih fun _ => pure _

theorem arguments {args args' : List Operand}
    (alike : List.Forall₂ (OfOperand ctx pairing) args args') (params : List JType) :
    Alike ctx pairing (arguments ctx args params) (arguments ctx args' params) := by
  induction alike generalizing params with
  | nil => exact pure ()
  | cons first _ ih =>
      cases params with
      | nil => exact pure ()
      | cons param params =>
          exact bind (value first.code) fun _ => bind (coerceTop param) fun _ => ih params

/-! ## Constants and local variables -/

theorem constant (literal : Literal) :
    Alike ctx pairing (constant ctx literal) (constant ctx literal) := by
  refine bind (emit ?_) fun _ => push _
  exact Instr.isMark_of_isPlain (Instr.effect?_constantInstr literal).1

theorem source {code : Opcode} (noGoto : code ≠ .goto) (ty : JType) :
    Alike ctx pairing (source ctx code ty) (source ctx code ty) :=
  bind (emitOp noGoto) fun _ => push ty

theorem boolean (value : Bool) : Alike ctx pairing (boolean ctx value) (boolean ctx value) :=
  source (by cases value <;> decide) _

theorem receiverLoad : Alike ctx pairing (receiverLoad ctx) (receiverLoad ctx) := by
  unfold Gen.receiverLoad
  exact check <| bind (emit rfl) fun _ => push _

theorem slotOf (ref : LocalRef) : Alike ctx pairing (slotOf ref) (slotOf ref) := by
  cases ref with
  | named name => exact onFrame (.resolveIndex name)
  | slot index => exact pure index

theorem loadSlot (slot : Slot) (ty : JType) :
    Alike ctx pairing (loadSlot ctx slot ty) (loadSlot ctx slot ty) :=
  bind (emit rfl) fun _ => push ty

theorem storeSlot (slot : Slot) : Alike ctx pairing (storeSlot ctx slot) (storeSlot ctx slot) :=
  bind pop fun _ => emit rfl

theorem load (ref : LocalRef) : Alike ctx pairing (load ctx ref) (load ctx ref) :=
  bind (slotOf ref) fun slot => bind (onFrame (.localType slot)) fun ty => loadSlot slot ty

theorem storeTarget (ref : LocalRef) : Alike ctx pairing (storeTarget ref) (storeTarget ref) := by
  cases ref with
  | named name =>
      exact bind (onFrame (.resolveIndex name)) fun slot =>
        bind (onFrame (.localType slot)) fun _ => pure _
  | slot index =>
      exact onFrame (.read fun _ _ _ _ _ => rfl :
        Frame.Quiet fun f => .ok (index, f.slotType? index.toNat) f)

theorem store (target : LocalRef) {init init' : Gen Unit} (alike : Alike ctx pairing init init') :
    Alike ctx pairing (store ctx target init) (store ctx target init') := by
  refine bind (storeTarget target) fun found => bind (value alike) fun ty => ?_
  obtain ⟨slot, declared⟩ := found
  cases declared with
  | some declared => exact bind (coerceTop declared) fun _ => storeSlot slot
  | none => exact bind (onFrame (.setLocal slot ty)) fun _ => storeSlot slot

theorem declare (name : String) (ty : JType) {init init' : Gen Unit}
    (alike : Alike ctx pairing init init') :
    Alike ctx pairing (declare ctx name ty init) (declare ctx name ty init') :=
  bind (value alike) fun _ => bind (coerceTop ty) fun _ =>
    bind (onFrame (.addLocal (some name) ty)) fun slot => storeSlot slot

theorem declareUninit (name : String) (ty : JType) :
    Alike ctx pairing (declareUninit name ty) (declareUninit name ty) :=
  bind (onFrame (.addLocal (some name) ty)) fun _ => pure ()

theorem increment (target : LocalRef) (step : Int32) :
    Alike ctx pairing (increment ctx target step) (increment ctx target step) := by
  refine bind (slotOf target) fun slot => bind (onFrame (.localType slot)) fun ty => ?_
  cases ty.asPrimitive?.filter Primitive.isNumeric with
  | none => exact throw _
  | some p =>
      have noGoto : Opcode.iadd + p.computational.typecode ≠ .goto := by cases p <;> decide
      exact bind (loadSlot slot ty) fun _ => bind (constant _) fun _ => bind (popN 2) fun _ =>
        bind (emitOp noGoto) fun _ => bind (push _) fun _ => bind (castTop ty) fun _ => storeSlot slot

/-! ## Members and calls -/

theorem checkAccess (member : Member) :
    Alike ctx pairing (checkAccess ctx member) (checkAccess ctx member) :=
  ite (pure ()) (throw _)

theorem resolveField (owner : JType) (name : String) :
    Alike ctx pairing (resolveField ctx owner name) (resolveField ctx owner name) := by
  unfold Gen.resolveField
  split
  · exact throw _
  · exact bind (checkAccess _) fun _ => pure _

theorem resolveMethod (owner : JType) (name : String) (args : List JType) (isConstructor : Bool) :
    Alike ctx pairing (resolveMethod ctx owner name args isConstructor)
      (resolveMethod ctx owner name args isConstructor) := by
  unfold Gen.resolveMethod
  split
  · exact throw _
  · exact bind (checkAccess _) fun _ => pure _

theorem staticField (owner : JType) (name : String) :
    Alike ctx pairing (staticField ctx owner name) (staticField ctx owner name) :=
  bind (resolveField owner name) fun _ => ite (pure _) (throw _)

theorem receiver (use : ReceiverUse) : Alike ctx pairing (receiver use) (receiver use) :=
  bind peek fun _ => check (pure _)

theorem instanceField (name : String) :
    Alike ctx pairing (instanceField ctx name) (instanceField ctx name) :=
  bind (receiver _) fun owner => bind (resolveField owner name) fun _ => ite (throw _) (pure _)

theorem getStatic (owner : JType) (name : String) :
    Alike ctx pairing (getStatic ctx owner name) (getStatic ctx owner name) :=
  bind (staticField owner name) fun _ => bind (emit rfl) fun _ => push _

theorem putStatic (owner : JType) (name : String) {code code' : Gen Unit}
    (alike : Alike ctx pairing code code') :
    Alike ctx pairing (putStatic ctx owner name code) (putStatic ctx owner name code') :=
  bind (staticField owner name) fun _ => bind (value alike) fun _ =>
    bind (coerceTop _) fun _ => bind pop fun _ => emit rfl

theorem getField (name : String) : Alike ctx pairing (getField ctx name) (getField ctx name) :=
  bind (instanceField name) fun _ => bind pop fun _ => bind (emit rfl) fun _ => push _

theorem putField (name : String) {code code' : Gen Unit} (alike : Alike ctx pairing code code') :
    Alike ctx pairing (putField ctx name code) (putField ctx name code') :=
  bind (instanceField name) fun _ => bind (value alike) fun _ =>
    bind (coerceTop _) fun _ => bind (popN 2) fun _ => emit rfl

theorem finishCall (code : Opcode) (method : Member) (hasReceiver : Bool) :
    Alike ctx pairing (finishCall ctx code method hasReceiver)
      (finishCall ctx code method hasReceiver) :=
  bind (popN _) fun _ => bind (emit rfl) fun _ => ite (push _) (pure ())

section Calls

variable {args args' : List Operand} (alike : List.Forall₂ (OfOperand ctx pairing) args args')

include alike

theorem invoke (name : String) : Alike ctx pairing (invoke ctx name args) (invoke ctx name args') :=
  bind (receiver _) fun owner => bind (probeAll alike) fun types =>
    bind (resolveMethod owner name types false) fun method =>
      check (bind (arguments alike _) fun _ => finishCall _ method true)

theorem invokeStatic (owner : JType) (name : String) :
    Alike ctx pairing (invokeStatic ctx owner name args) (invokeStatic ctx owner name args') :=
  bind (probeAll alike) fun types => bind (resolveMethod owner name types false) fun method =>
    check (bind (arguments alike _) fun _ => finishCall _ method false)

theorem construct (ty : JType) :
    Alike ctx pairing (construct ctx ty args) (construct ctx ty args') := by
  unfold Gen.construct
  exact check <| bind (probeAll alike) fun types => bind (resolveMethod ty _ types true) fun ctor =>
    bind (emit rfl) fun _ => bind (push ty) fun _ => bind (emitOp (by decide)) fun _ =>
      bind (push ty) fun _ => bind (arguments alike _) fun _ => finishCall _ ctor true

theorem superInit : Alike ctx pairing (superInit ctx args) (superInit ctx args') := by
  unfold Gen.superInit
  exact check <| bind (probeAll alike) fun types => bind (resolveMethod _ _ types true) fun ctor =>
    bind (emit rfl) fun _ => bind (push _) fun _ =>
      bind (arguments alike _) fun _ => finishCall _ ctor true

end Calls

/-! ## Arrays, arithmetic and other operations on the top -/

theorem newArray (elem : JType) {length length' : Gen Unit}
    (alike : Alike ctx pairing length length') :
    Alike ctx pairing (newArray ctx elem length) (newArray ctx elem length') := by
  unfold Gen.newArray
  refine check <| bind (value alike) fun _ => bind (coerceTop _) fun _ => bind pop fun _ => ?_
  cases elem with
  | primitive p => exact bind (emit rfl) fun _ => push _
  | _ => exact bind (emit rfl) fun _ => push _

theorem arrayElement : Alike ctx pairing arrayElement arrayElement := by
  refine bind peek fun ty => ?_
  cases ty.element? with
  | some elem => exact pure elem
  | none => exact throw _

theorem arrayLoad {index index' : Gen Unit} (alike : Alike ctx pairing index index') :
    Alike ctx pairing (arrayLoad ctx index) (arrayLoad ctx index') :=
  bind arrayElement fun elem => bind (value alike) fun _ => bind (coerceTop _) fun _ =>
    bind (popN 2) fun _ => bind (emitOp (Opcode.arrayLoadOf_ne_goto elem)) fun _ => push _

theorem arrayStore {index index' code code' : Gen Unit} (first : Alike ctx pairing index index')
    (second : Alike ctx pairing code code') :
    Alike ctx pairing (arrayStore ctx index code) (arrayStore ctx index' code') :=
  bind arrayElement fun elem => bind (value first) fun _ => bind (coerceTop _) fun _ =>
    bind (value second) fun _ => bind (coerceTop _) fun _ => bind (popN 3) fun _ =>
      emitOp (Opcode.arrayStoreOf_ne_goto elem)

theorem arrayLength : Alike ctx pairing (arrayLength ctx) (arrayLength ctx) :=
  bind arrayElement fun _ => bind pop fun _ => bind (emitOp (by decide)) fun _ => push _

theorem operands (left right : JType) {code code' : Gen Unit} (alike : Alike ctx pairing code code') :
    Alike ctx pairing (operands ctx left code right) (operands ctx left code' right) :=
  bind (coerceTop left) fun _ => bind (value alike) fun _ => coerceTop right

theorem arith (op : ArithOp) {right right' : Operand} (alike : OfOperand ctx pairing right right') :
    Alike ctx pairing (arith ctx op right) (arith ctx op right') := by
  refine bind peek fun leftType => bind (probe alike) fun rightType => ?_
  cases found : operandTypes? op leftType rightType with
  | none => exact throw _
  | some types =>
      obtain ⟨result, converted⟩ := types
      have noMark := Instr.isMark_of_isPlain (Instr.effect?_arith found).1
      exact bind (operands result converted alike.code) fun _ => bind (popN 2) fun _ =>
        bind (emit noMark) fun _ => push result

theorem negate : Alike ctx pairing (negate ctx) (negate ctx) := by
  refine bind peek fun ty => ?_
  cases ty.unaryPromotion? with
  | none => exact throw _
  | some p => exact bind (coerceTop _) fun _ => emitOp (by cases p <;> decide)

theorem instanceOf (ty : JType) : Alike ctx pairing (instanceOf ctx ty) (instanceOf ctx ty) :=
  bind peek fun _ => check <| bind pop fun _ => bind (emit rfl) fun _ => push _

theorem discard : Alike ctx pairing (discard ctx) (discard ctx) :=
  bind pop fun ty => emitOp (by cases ty.isWide <;> decide)

theorem returnValue : Alike ctx pairing (returnValue ctx) (returnValue ctx) := by
  unfold Gen.returnValue
  exact check <| bind (coerceTop _) fun _ => bind pop fun _ =>
    emitOp (Opcode.returnOf_ne_goto ctx.result)

theorem returnVoid : Alike ctx pairing (returnVoid ctx) (returnVoid ctx) := by
  unfold Gen.returnVoid
  exact check (emitOp (by decide))

theorem raise : Alike ctx pairing (raise ctx) (raise ctx) :=
  bind peek fun _ => check <| bind pop fun _ => emitOp (by decide)

end Alike

/-! ## Branches -/

/-- Actions for each label that may jump to it. -/
def AlikeTo (ctx : Context) (pairing : Pairing) (x x' : Label → Gen Unit) : Prop :=
  ∀ ⦃heads pending label label'⦄, (label, label') ∈ heads ++ pending →
    ∀ live, Parallel ctx pairing live heads pending (x label) (x' label') pending

/-- Branches made of the same steps.  If `flip` is set, the senses for which they
jump are opposite. -/
def AlikeBranch (ctx : Context) (pairing : Pairing) (flip : Bool) (branch branch' : Branch) : Prop :=
  ∀ sense, AlikeTo ctx pairing (branch sense) (branch' (sense ^^ flip))

namespace AlikeBranch

variable {ctx : Context} {pairing : Pairing} {flip : Bool}

theorem constBranch (value : Bool) :
    AlikeBranch ctx pairing flip (constBranch ctx value) (constBranch ctx (value ^^ flip)) := by
  intro sense heads pending label label' known live
  have agree : ((value ^^ flip) = (sense ^^ flip)) = (value = sense) := by simp
  simp only [Gen.constBranch, agree]
  exact .ite (.jump _ known) (.pure ())

theorem truthBranch (wanted : Bool) {code code' : Gen Unit} (alike : Alike ctx pairing code code') :
    AlikeBranch ctx pairing flip (truthBranch ctx wanted code)
      (truthBranch ctx (wanted ^^ flip) code') := by
  intro sense heads pending label label' known live
  have agree : ((wanted ^^ flip) = (sense ^^ flip)) = (wanted = sense) := by simp
  simp only [Gen.truthBranch, agree]
  exact .bind (.value (alike _ _ _)) fun _ => .bind (Alike.coerceTop _ _ _ _) fun _ =>
    .bind (Alike.pop _ _ _) fun _ => .jump _ known

theorem nullBranch (wanted : Bool) {operand operand' : Operand}
    (alike : Alike.OfOperand ctx pairing operand operand') :
    AlikeBranch ctx pairing flip (nullBranch ctx wanted operand)
      (nullBranch ctx (wanted ^^ flip) operand') := by
  intro sense heads pending label label' known live
  have agree : ((wanted ^^ flip) = (sense ^^ flip)) = (wanted = sense) := by simp
  simp only [Gen.nullBranch, agree]
  exact .bind (Alike.probe alike _ _ _) fun _ => .check fun _ =>
    .bind (.value (alike.code _ _ _)) fun _ => .bind (Alike.pop _ _ _) fun _ => .jump _ known

theorem numericBranch (ty : Primitive) (op : RelOp) (nan : Bool) :
    AlikeTo ctx pairing (numericBranch ctx ty op nan) (numericBranch ctx ty op nan) := by
  intro heads pending label label' known live
  refine .bind (Alike.popN 2 _ _ _) fun _ => ?_
  cases found : comparison? ty op nan with
  | some code =>
      have noMark := Instr.isMark_of_isPlain (Instr.effect?_comparison found).1
      exact .bind (.emit noMark) fun _ => .jump _ known
  | none => exact .jump _ known

theorem identityBranch (equal : Bool) :
    AlikeTo ctx pairing (identityBranch ctx equal) (identityBranch ctx equal) :=
  fun _ _ _ _ known _ => .bind (Alike.popN 2 _ _ _) fun _ => .jump _ known

theorem comparands {left left' right right' : Operand}
    (first : Alike.OfOperand ctx pairing left left')
    (second : Alike.OfOperand ctx pairing right right') (ty : JType) :
    Alike ctx pairing (comparands ctx left right ty) (comparands ctx left' right' ty) :=
  .bind (.value first.code) fun _ => .bind (.coerceTop ty) fun _ =>
    .bind (.value second.code) fun _ => .coerceTop ty

/-- Comparisons are alike if the operator and what it says of unordered operands
are both negated or both kept. -/
theorem compareBranch (written : RelOp) (writtenNan : Bool)
    {left left' right right' : Operand} (first : Alike.OfOperand ctx pairing left left')
    (second : Alike.OfOperand ctx pairing right right')
    (notOnBoolean : pairing.errors (.invalidInput (.notOnBoolean written))
      (.invalidInput (.notOnBoolean (written.flipped flip))))
    (notComparable : ∀ leftType rightType,
      pairing.errors (.invalidInput (.notComparable written leftType rightType))
        (.invalidInput (.notComparable (written.flipped flip) leftType rightType))) :
    AlikeBranch ctx pairing flip (compareBranch ctx written left right writtenNan)
      (compareBranch ctx (written.flipped flip) left' right' (writtenNan ^^ flip)) := by
  intro sense heads pending label label' known live
  have sameOp : (if (sense ^^ flip) = true then written.flipped flip
      else (written.flipped flip).negate) = if sense then written else written.negate := by
    cases sense <;> cases flip <;> simp [RelOp.flipped]
  have sameNan : (if (sense ^^ flip) = true then writtenNan ^^ flip else !(writtenNan ^^ flip)) =
      if sense then writtenNan else !writtenNan := by
    cases sense <;> cases flip <;> simp
  have sameEquality : (written.flipped flip).isEquality = written.isEquality := by
    cases flip <;> simp [RelOp.flipped]
  simp only [Gen.compareBranch, sameOp, sameNan, sameEquality]
  refine .bind (Alike.probe first _ _ _) fun leftType =>
    .bind (Alike.probe second _ _ _) fun rightType => .check fun _ => .check fun _ =>
      .ite ?_ (.ite ?_ ?_)
  · exact .bind (.value (first.code _ _ _)) fun _ => .bind (.value (second.code _ _ _)) fun _ =>
      identityBranch _ known _
  · exact .check_of notOnBoolean fun _ => .bind (comparands first second _ _ _ _) fun _ =>
      .bind (Alike.popN 2 _ _ _) fun _ => .jump _ known
  · cases JType.binaryPromotion? leftType rightType with
    | some promoted =>
        exact .bind (comparands first second _ _ _ _) fun _ => numericBranch promoted _ _ known _
    | none =>
        dsimp only
        split
        · exact .throw (pairing.errors_refl _)
        · exact .bind (.value (first.code _ _ _)) fun _ => .bind (.value (second.code _ _ _)) fun _ =>
            .bind (Alike.coerceTop _ _ _ _) fun _ => numericBranch _ _ _ known _
        · exact .ite (.bind (.value (first.code _ _ _)) fun _ =>
            .bind (.value (second.code _ _ _)) fun _ => .bind (Alike.coerceTop _ _ _ _) fun _ =>
              identityBranch _ known _) (.throw (notComparable _ _))
        · exact .throw (notComparable _ _)

/-! ## Junctions -/

theorem untilDead {heads pending : List (Label × Label)} {actions actions' : List (Gen Unit)}
    (parallel : List.Forall₂
      (fun x x' => ∀ live, Parallel ctx pairing live heads pending x x' pending) actions actions')
    (live : Bool) :
    Parallel ctx pairing live heads pending (untilDead actions) (untilDead actions') pending := by
  induction parallel generalizing live with
  | nil => exact .pure ()
  | cons first _ ih => exact .bind (first live) fun _ => .bind .isAlive fun _ => .ite (ih _) (.pure ())

variable {parts parts' : List Branch}

theorem eachBranch (alike : List.Forall₂ (AlikeBranch ctx pairing flip) parts parts')
    (sense : Bool) : AlikeTo ctx pairing (eachBranch parts sense) (eachBranch parts' (sense ^^ flip)) := by
  intro heads pending label label' known live
  refine untilDead ?_ live
  rw [List.forall₂_map_left_iff, List.forall₂_map_right_iff]
  exact alike.imp fun _ _ part => part sense known

theorem forall₂_dropLast {α : Type} {related : α → α → Prop} {xs ys : List α}
    (all : List.Forall₂ related xs ys) : List.Forall₂ related xs.dropLast ys.dropLast := by
  induction all with
  | nil => exact .nil
  | cons first rest ih =>
      cases rest with
      | nil => exact .nil
      | cons => exact .cons first ih

theorem forall₂_getLast? {α : Type} {related : α → α → Prop} {xs ys : List α}
    (all : List.Forall₂ related xs ys) : Option.Rel related xs.getLast? ys.getLast? := by
  induction all with
  | nil => exact .none
  | cons first rest ih =>
      cases rest with
      | nil => exact .some first
      | cons => simpa [List.getLast?_cons_cons] using ih

theorem lastBranch (alike : List.Forall₂ (AlikeBranch ctx pairing flip) parts parts')
    (sense : Bool) :
    AlikeTo ctx pairing (lastBranch ctx parts sense) (lastBranch ctx parts' (sense ^^ flip)) := by
  intro heads pending label label' known live
  have lasts := forall₂_getLast? alike
  have opposite : (!(sense ^^ flip)) = (!sense ^^ flip) := by simp
  unfold Gen.lastBranch
  rw [opposite]
  generalize parts.getLast? = last at lasts ⊢
  generalize parts'.getLast? = last' at lasts ⊢
  cases lasts with
  | none => exact .jump _ known
  | some alikeLast =>
      have known (skip skip' : Label) : (label, label') ∈ heads ++ (skip, skip') :: pending := by
        rcases List.mem_append.mp known with isHead | isPending
        · simp [isHead]
        · simp [isPending]
      exact .newLabel fun skip skip' =>
        .bind (eachBranch (forall₂_dropLast alike) (!sense) (by simp) _) fun _ =>
          .bind (.whenAlive (alikeLast sense (known skip skip') _)) fun _ => .place (.refl _)

theorem conjBranch (alike : List.Forall₂ (AlikeBranch ctx pairing false) parts parts') :
    AlikeBranch ctx pairing false (conjBranch ctx parts) (conjBranch ctx parts') := by
  intro sense
  cases sense with
  | true => exact lastBranch alike true
  | false => exact eachBranch alike false

theorem disjBranch (alike : List.Forall₂ (AlikeBranch ctx pairing false) parts parts') :
    AlikeBranch ctx pairing false (disjBranch ctx parts) (disjBranch ctx parts') := by
  intro sense
  cases sense with
  | true => exact eachBranch alike true
  | false => exact lastBranch alike false

/-- Negation turns one junction into the other. -/
theorem conjBranch_disjBranch (alike : List.Forall₂ (AlikeBranch ctx pairing true) parts parts') :
    AlikeBranch ctx pairing true (Gen.conjBranch ctx parts) (Gen.disjBranch ctx parts') := by
  intro sense
  cases sense with
  | true => exact lastBranch alike true
  | false => exact eachBranch alike false

theorem disjBranch_conjBranch (alike : List.Forall₂ (AlikeBranch ctx pairing true) parts parts') :
    AlikeBranch ctx pairing true (Gen.disjBranch ctx parts) (Gen.conjBranch ctx parts') := by
  intro sense
  cases sense with
  | true => exact eachBranch alike true
  | false => exact lastBranch alike false

end AlikeBranch

/-! ## Statements and conditional values -/

namespace Alike

variable {ctx : Context} {pairing : Pairing} {cond cond' : Branch}

section

variable (condition : AlikeBranch ctx pairing false cond cond')

include condition

theorem ifThen {body body' : Gen Unit} (alike : Alike ctx pairing body body') :
    Alike ctx pairing (ifThen ctx cond body) (ifThen ctx cond' body') :=
  fun _ _ _ => .newLabel fun _ _ => .bind (condition false (by simp) _) fun _ =>
    .bind (.whenAlive (inScope alike _ _ _)) fun _ => .place (.refl _)

theorem ifElse {body body' otherwise otherwise' : Gen Unit} (first : Alike ctx pairing body body')
    (second : Alike ctx pairing otherwise otherwise') :
    Alike ctx pairing (ifElse ctx cond body otherwise) (ifElse ctx cond' body' otherwise') :=
  fun _ _ _ => .newLabel fun _ _ => .newLabel fun _ _ =>
    .bind (condition false (by simp) _) fun _ => .bind (.whenAlive (inScope first _ _ _)) fun _ =>
      .bind (.whenAlive (.jump _ (by simp))) fun _ => .bind (.place (.refl _)) fun _ =>
        .bind (.whenAlive (inScope second _ _ _)) fun _ => .place (.refl _)

/-- The start of a loop is a head. -/
theorem whileLoop {body body' : Gen Unit} (alike : Alike ctx pairing body body')
    (heads pending : List (Label × Label)) :
    Parallel ctx pairing true heads pending (whileLoop ctx cond body) (whileLoop ctx cond' body')
      pending :=
  .newLabel fun _ _ => .newLabel fun _ _ => .head (.swap _ _ _) <|
    .bind (condition false (by simp) _) fun _ =>
      .bind (.whenAlive (.bind (inScope alike _ _ _) fun _ => .whenAlive (.jump _ (by simp))))
        fun _ => .place (.refl _)

/-- A choice between two pieces of code that each leave a value. -/
theorem choice {first first' second second' : Gen Unit} (ofFirst : Alike ctx pairing first first')
    (ofSecond : Alike ctx pairing second second') :
    Alike ctx pairing
      (do
        let elseLabel ← newLabel
        let stop ← newLabel
        cond false elseLabel
        Gen.whenAlive do
          first
          Gen.jump ctx .goto stop
        Gen.place ctx elseLabel
        Gen.whenAlive second
        Gen.place ctx stop)
      (do
        let elseLabel ← newLabel
        let stop ← newLabel
        cond' false elseLabel
        Gen.whenAlive do
          first'
          Gen.jump ctx .goto stop
        Gen.place ctx elseLabel
        Gen.whenAlive second'
        Gen.place ctx stop) :=
  fun _ _ _ => .newLabel fun _ _ => .newLabel fun _ _ =>
    .bind (condition false (by simp) _) fun _ =>
      .bind (.whenAlive (.bind (ofFirst _ _ _) fun _ => .jump _ (by simp))) fun _ =>
        .bind (.place (.swap _ _ _)) fun _ => .bind (.whenAlive (ofSecond _ _ _)) fun _ =>
          .place (.refl _)

theorem conditional {thenArm thenArm' elseArm elseArm' : Operand}
    (first : OfOperand ctx pairing thenArm thenArm')
    (second : OfOperand ctx pairing elseArm elseArm') :
    Alike ctx pairing (conditional ctx cond thenArm elseArm)
      (conditional ctx cond' thenArm' elseArm') := by
  refine bind (probe first) fun thenType => bind (probe second) fun elseType => ?_
  cases JType.common ctx.table ctx.config.narrowReinterpretation thenType elseType with
  | error e => exact throw e
  | ok ty =>
      exact choice condition
        (inScope (bind (value first.code) fun _ => coerceTop ty))
        (inScope (bind (value second.code) fun _ => coerceTop ty))

theorem condValue : Alike ctx pairing (condValue ctx cond) (condValue ctx cond') :=
  choice condition (boolean true) (boolean false)

end

theorem operation (name : String) {body body' : Gen Unit}
    (parallel : ∀ heads pending, Parallel ctx pairing true heads pending body body' pending) :
    Alike ctx pairing (operation name body) (operation name body') :=
  fun _ _ _ => .operation name (parallel _ _)

end Alike

end Gen

/-! ## Bodies -/

/-- The positions of operands below two positions correspond. -/
def Pairing.Covers (pairing : Pairing) (pos pos' : Position)
    (operandAt? : List Nat → Option Fragment) : Prop :=
  ∀ path operand, operandAt? path = some operand →
    pairing.positions (path.reverse ++ pos) (path.reverse ++ pos')

namespace Pairing.Covers

variable {pairing : Pairing} {pos pos' : Position}
variable {operandAt? operandAt?' : List Nat → Option Fragment}

theorem mono (covers : pairing.Covers pos pos' operandAt?)
    (below : ∀ path operand, operandAt?' path = some operand → operandAt? path = some operand) :
    pairing.Covers pos pos' operandAt?' :=
  fun path operand found => covers path operand (below path operand found)

theorem child (covers : pairing.Covers pos pos' operandAt?) (step : Nat)
    (below : ∀ path operand, operandAt?' path = some operand →
      operandAt? (step :: path) = some operand) :
    pairing.Covers (step :: pos) (step :: pos') operandAt?' := by
  intro path operand found
  simpa using covers (step :: path) operand (below path operand found)

theorem operand (covers : pairing.Covers pos pos' operandAt?) (step : Nat) {operand : Fragment}
    (here : ∀ path, operandAt? (step :: path) =
      if path = [] then some operand else operandIn? 0 operand path) :
    pairing.positions (step :: pos) (step :: pos') ∧
      pairing.Covers (step :: pos) (step :: pos') (operandIn? 0 operand) := by
  constructor
  · simpa using covers [step] operand (by simp [here])
  · apply covers.child step
    intro path inner found
    rw [here, if_neg, found]
    rintro rfl
    cases operand <;> simp [operandIn?] at found

end Pairing.Covers

open Gen

section

variable (ctx : Context) (pairing : Pairing)

mutual

/-- Operations at corresponding positions are alike where they can be reached. -/
theorem Op.body_parallel (pos pos' : Position) :
    (op : Op) → pairing.Covers pos pos' op.operandAt? → ∀ heads pending,
      Parallel ctx pairing true heads pending (op.body ctx pos) (op.body ctx pos') pending
  | .constant value, _ => Alike.constant value true
  | .boolean value, _ => Alike.boolean value true
  | .null, _ => Alike.source (by decide) _ true
  | .this, _ => Alike.receiverLoad true
  | .load source, _ => Alike.load source true
  | .store target value, covers =>
      Alike.store target (codeFrom_alike _ _ 0 value (covers.operand 0 fun _ => rfl).2) true
  | .declare name type init, covers =>
      Alike.declare name type (codeFrom_alike _ _ 0 init (covers.operand 0 fun _ => rfl).2) true
  | .declareUninit name type, _ => Alike.declareUninit name type true
  | .increment target step, _ => Alike.increment target step true
  | .getField name, _ => Alike.getField name true
  | .putField name value, covers =>
      Alike.putField name (codeFrom_alike _ _ 0 value (covers.operand 0 fun _ => rfl).2) true
  | .getStatic owner name, _ => Alike.getStatic owner name true
  | .putStatic owner name value, covers =>
      Alike.putStatic owner name
        (codeFrom_alike _ _ 0 value (covers.operand 0 fun _ => rfl).2) true
  | .invoke name args, covers => Alike.invoke (operandsFrom_alike pos pos' 0 args covers) name true
  | .invokeStatic owner name args, covers =>
      Alike.invokeStatic (operandsFrom_alike pos pos' 0 args covers) owner name true
  | .construct type args, covers =>
      Alike.construct (operandsFrom_alike pos pos' 0 args covers) type true
  | .superInit args, covers => Alike.superInit (operandsFrom_alike pos pos' 0 args covers) true
  | .newArray elem length, covers =>
      Alike.newArray elem (codeFrom_alike _ _ 0 length (covers.operand 0 fun _ => rfl).2) true
  | .arrayLoad index, covers =>
      Alike.arrayLoad (codeFrom_alike _ _ 0 index (covers.operand 0 fun _ => rfl).2) true
  | .arrayStore index value, covers =>
      Alike.arrayStore (codeFrom_alike _ _ 0 index (covers.operand 0 fun _ => rfl).2)
        (codeFrom_alike _ _ 0 value (covers.operand 1 fun _ => rfl).2) true
  | .arrayLength, _ => Alike.arrayLength true
  | .arith op right, covers =>
      have inner := covers.operand 0 fun _ => rfl
      Alike.arith op ⟨inner.1, codeFrom_alike _ _ 0 right inner.2⟩ true
  | .negate, _ => Alike.negate true
  | .cast target, _ => Alike.castTop target true
  | .convert target, _ => Alike.coerceTop target true
  | .instanceOf type, _ => Alike.instanceOf type true
  | .pop, _ => Alike.discard true
  | .returnValue, _ => Alike.returnValue true
  | .returnVoid, _ => Alike.returnVoid true
  | .throw, _ => Alike.raise true
  | .ifThen cond body, covers =>
      Alike.ifThen (cond.branch_alike _ _ (covers.child 0 fun _ _ found => found))
        (codeFrom_alike _ _ 0 body (covers.child 1 fun _ _ found => found)) true
  | .ifElse cond body otherwise, covers =>
      Alike.ifElse (cond.branch_alike _ _ (covers.child 0 fun _ _ found => found))
        (codeFrom_alike _ _ 0 body (covers.child 1 fun _ _ found => found))
        (codeFrom_alike _ _ 0 otherwise (covers.child 2 fun _ _ found => found)) true
  | .whileLoop cond body, covers =>
      Alike.whileLoop (cond.branch_alike _ _ (covers.child 0 fun _ _ found => found))
        (codeFrom_alike _ _ 0 body (covers.child 1 fun _ _ found => found))
  | .conditional cond thenArm elseArm, covers =>
      have first := covers.operand 1 fun _ => rfl
      have second := covers.operand 2 fun _ => rfl
      Alike.conditional (cond.branch_alike _ _ (covers.child 0 fun _ _ found => found))
        ⟨first.1, codeFrom_alike _ _ 0 thenArm first.2⟩
        ⟨second.1, codeFrom_alike _ _ 0 elseArm second.2⟩ true
  | .condValue cond, covers =>
      Alike.condValue (cond.branch_alike _ _ (covers.child 0 fun _ _ found => found)) true
  | .block body, covers =>
      Alike.inScope (codeFrom_alike _ _ 0 body (covers.child 0 fun _ _ found => found)) true
  | .malformed _, _ => Alike.throw _ true

theorem codeFrom_alike (pos pos' : Position) (index : Nat) :
    (ops : List Op) → pairing.Covers pos pos' (operandIn? index ops) →
      Alike ctx pairing (codeFrom ctx pos index ops) (codeFrom ctx pos' index ops)
  | [], _ => .pure ()
  | op :: rest, covers =>
      have first := op.body_parallel (index :: pos) (index :: pos')
        (covers.child index fun path operand found => by simpa [operandIn?] using found)
      .bind (.operation op.name first) fun _ =>
        codeFrom_alike pos pos' (index + 1) rest (covers.mono fun _ _ => operandIn?_cons_of_rest)

theorem operandsFrom_alike (pos pos' : Position) (index : Nat) :
    (args : List (List Op)) → pairing.Covers pos pos' (argumentAt? index args) →
      List.Forall₂ (Alike.OfOperand ctx pairing) (operandsFrom ctx pos index args)
        (operandsFrom ctx pos' index args)
  | [], _ => .nil
  | arg :: rest, covers =>
      have first := covers.operand index fun path => by simp [argumentAt?]
      .cons ⟨first.1, codeFrom_alike (index :: pos) (index :: pos') 0 arg first.2⟩
        (operandsFrom_alike pos pos' (index + 1) rest
          (covers.mono fun _ _ => argumentAt?_cons_of_rest))

theorem Cond.branch_alike (pos pos' : Position) :
    (c : Cond) → pairing.Covers pos pos' c.operandAt? →
      AlikeBranch ctx pairing false (c.branch ctx pos) (c.branch ctx pos')
  | .const value, _ => by
      have alike : AlikeBranch ctx pairing false _ _ := .constBranch value
      rwa [Bool.xor_false] at alike
  | .truth value, covers =>
      .truthBranch true (codeFrom_alike (0 :: pos) (0 :: pos') 0 value
        (covers.operand 0 fun _ => rfl).2)
  | .falsity value, covers =>
      .truthBranch false (codeFrom_alike (0 :: pos) (0 :: pos') 0 value
        (covers.operand 0 fun _ => rfl).2)
  | .isNull value, covers =>
      have inner := covers.operand 0 fun _ => rfl
      .nullBranch true ⟨inner.1, codeFrom_alike (0 :: pos) (0 :: pos') 0 value inner.2⟩
  | .nonNull value, covers =>
      have inner := covers.operand 0 fun _ => rfl
      .nullBranch false ⟨inner.1, codeFrom_alike (0 :: pos) (0 :: pos') 0 value inner.2⟩
  | .compare op left right nan, covers => by
      have first := covers.operand 0 fun _ => rfl
      have second := covers.operand 1 fun _ => rfl
      have alike : AlikeBranch ctx pairing false _ _ := .compareBranch op nan
        (Alike.ofOperand first.1 (codeFrom_alike (0 :: pos) (0 :: pos') 0 left first.2))
        (Alike.ofOperand second.1 (codeFrom_alike (1 :: pos) (1 :: pos') 0 right second.2))
        (pairing.errors_refl _) fun _ _ => pairing.errors_refl _
      rwa [Bool.xor_false] at alike
  | .conj parts, covers => .conjBranch (branchesFrom_alike pos pos' 0 parts covers)
  | .disj parts, covers => .disjBranch (branchesFrom_alike pos pos' 0 parts covers)

theorem branchesFrom_alike (pos pos' : Position) (index : Nat) :
    (parts : List Cond) → pairing.Covers pos pos' (operandInParts? index parts) →
      List.Forall₂ (AlikeBranch ctx pairing false) (branchesFrom ctx pos index parts)
        (branchesFrom ctx pos' index parts)
  | [], _ => .nil
  | part :: rest, covers =>
      have first := part.branch_alike (index :: pos) (index :: pos')
        (covers.child index fun path operand found => by simpa [operandInParts?] using found)
      .cons first (branchesFrom_alike pos pos' (index + 1) rest
        (covers.mono fun _ _ => operandInParts?_cons_of_rest))

end

end

end JvmAssembler
