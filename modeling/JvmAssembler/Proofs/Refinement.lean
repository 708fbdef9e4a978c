import Mathlib
import JvmAssembler.Method
import JvmAssembler.Proofs.Steps

/-!
# Actions that do what others do

`Refines` says that an action does, from every state, what another one does
where that one succeeds: it returns the same value in the same state.  What it
may do where the other one fails is a parameter.

Two contexts are compared through what generation reads of them.  If they agree
on all of it but the conversions and the resolution of members, and these refine
each other, the actions of all bodies do.
-/

namespace JvmAssembler

/-- What may become of a failure: another error in the same state, or anything
at all. -/
structure Tolerance where
  errors : Error → Error → Prop
  errors_refl : ∀ e, errors e e
  anything : Prop

/-- The second result is the first one, up to what may become of a failure. -/
inductive Tolerance.Keeps (tolerance : Tolerance) {α : Type} :
    EStateM.Result Error State α → EStateM.Result Error State α → Prop where
  | ok (a : α) (t : State) : Keeps tolerance (.ok a t) (.ok a t)
  | error {e e' : Error} (t : State) : tolerance.errors e e' →
      Keeps tolerance (.error e t) (.error e' t)
  | anything {e : Error} {t : State} (result : EStateM.Result Error State α) :
      tolerance.anything → Keeps tolerance (.error e t) result

namespace Gen

/-- The second action does what the first one does. -/
def Refines (tolerance : Tolerance) {α : Type} (x x' : Gen α) : Prop :=
  ∀ s, tolerance.Keeps (x s) (x' s)

namespace Refines

variable {α β : Type} {tolerance : Tolerance}

/-! ## Sequences and choices -/

theorem ok {x x' : Gen α} (refines : Refines tolerance x x') {s t : State} {a : α}
    (run : x s = .ok a t) : x' s = .ok a t := by
  have kept := refines s
  rw [run] at kept
  generalize x' s = result at kept
  cases kept
  rfl

theorem refl (x : Gen α) : Refines tolerance x x := by
  intro s
  cases x s with
  | ok a t => exact .ok a t
  | error e t => exact .error t (tolerance.errors_refl e)

theorem of_eq {x x' : Gen α} (same : x' = x) : Refines tolerance x x' :=
  same.symm ▸ refl x

theorem seq {x x' : Gen α} {f f' : α → Gen β} (first : Refines tolerance x x')
    (second : ∀ a, Returns x a → Refines tolerance (f a) (f' a)) :
    Refines tolerance (x >>= f) (x' >>= f') := by
  intro s
  change tolerance.Keeps (EStateM.bind x f s) (EStateM.bind x' f' s)
  unfold EStateM.bind
  have kept := first s
  generalize ran : x s = result at kept ⊢
  generalize x' s = result' at kept ⊢
  cases kept with
  | ok a t => exact second a ⟨s, t, ran⟩ t
  | error t same => exact .error t same
  | anything _ free => exact .anything _ free

theorem bind {x x' : Gen α} {f f' : α → Gen β} (first : Refines tolerance x x')
    (second : ∀ a, Refines tolerance (f a) (f' a)) : Refines tolerance (x >>= f) (x' >>= f') :=
  first.seq fun a _ => second a

theorem andThen (x : Gen α) {f f' : α → Gen β} (second : ∀ a, Refines tolerance (f a) (f' a)) :
    Refines tolerance (x >>= f) (x >>= f') :=
  bind (refl x) second

theorem ite {condition : Prop} [Decidable condition] {x x' y y' : Gen α}
    (first : Refines tolerance x x') (second : Refines tolerance y y') :
    Refines tolerance (if condition then x else y) (if condition then x' else y') := by
  split
  · exact first
  · exact second

/-- Actions that go on only if a check does not fail. -/
theorem check {condition : Prop} [Decidable condition] {e : Error} {next next' : Unit → Gen α}
    (refines : Refines tolerance (next ()) (next' ())) :
    Refines tolerance
      (if condition then (MonadExcept.throw e : Gen Unit) >>= next else next ())
      (if condition then (MonadExcept.throw e : Gen Unit) >>= next' else next' ()) :=
  ite (of_eq rfl) refines

theorem whenAlive {x x' : Gen Unit} (refines : Refines tolerance x x') :
    Refines tolerance (whenAlive x) (whenAlive x') :=
  andThen _ fun _ => ite refines (refl _)

/-! ## Fragments -/

theorem value {x x' : Gen Unit} (refines : Refines tolerance x x') :
    Refines tolerance (value x) (value x') :=
  andThen _ fun _ => bind refines fun _ => refl _

theorem inScope {x x' : Gen Unit} (refines : Refines tolerance x x') :
    Refines tolerance (inScope x) (inScope x') :=
  andThen _ fun _ => bind refines fun _ => refl _

theorem nested {x x' : Gen Unit} (refines : Refines tolerance x x') :
    Refines tolerance (nested x) (nested x') := by
  intro s
  have kept := refines { s with depth := s.depth + 1 }
  unfold Gen.nested
  dsimp only
  generalize x { s with depth := s.depth + 1 } = result at kept ⊢
  generalize x' { s with depth := s.depth + 1 } = result' at kept ⊢
  cases kept with
  | ok _ t => exact .ok () _
  | error t same => exact .error _ same
  | anything _ free => exact .anything _ free

theorem operation (name : String) {x x' : Gen Unit} (refines : Refines tolerance x x') :
    Refines tolerance (operation name x) (operation name x') :=
  nested (andThen _ fun _ => ite refines (refl _))

/-- Operands at one position whose code does the same. -/
structure OfOperand (tolerance : Tolerance) (operand operand' : Operand) : Prop where
  position : operand'.position = operand.position
  code : Refines tolerance operand.code operand'.code

theorem OfOperand.of_code (pos : Position) {x x' : Gen Unit} (refines : Refines tolerance x x') :
    OfOperand tolerance ⟨pos, x⟩ ⟨pos, x'⟩ :=
  ⟨rfl, refines⟩

theorem probeRemembered {operand operand' : Operand} (refines : OfOperand tolerance operand operand') :
    Refines tolerance (probeRemembered operand) (probeRemembered operand') := by
  intro s
  have kept := refines.code.value s.dryRun
  unfold Gen.probeRemembered
  rw [refines.position]
  cases s.probed[operand.position]? with
  | some ty => exact .ok ty s
  | none =>
      dsimp only
      generalize Gen.value operand.code s.dryRun = result at kept ⊢
      generalize Gen.value operand'.code s.dryRun = result' at kept ⊢
      cases kept with
      | ok ty t => exact .ok ty _
      | error t same => exact .error _ same
      | anything _ free => exact .anything _ free

theorem probeFresh {operand operand' : Operand} (refines : OfOperand tolerance operand operand') :
    Refines tolerance (probeFresh operand) (probeFresh operand') := by
  intro s
  have kept := refines.code.value s.dryRun
  unfold Gen.probeFresh
  generalize Gen.value operand.code s.dryRun = result at kept ⊢
  generalize Gen.value operand'.code s.dryRun = result' at kept ⊢
  cases kept with
  | ok ty t => exact .ok ty _
  | error t same => exact .error _ same
  | anything _ free => exact .anything _ free

end Refines

/-- Actions whose fragments and operands refine each other. -/
def refining (tolerance : Tolerance) : Plan where
  part _ _ x x' := Refines tolerance x x'
  operand := Refines.OfOperand tolerance
  may _ := True

/-! ## Contexts -/

section

variable {ctx ctx' : Context} (logs : ctx'.config.debugCode = ctx.config.debugCode)

include logs

/-- Writing an instruction asks the context only whether to log it. -/
theorem write_congr : write ctx' = write ctx := by
  funext instr s
  rw [write, write, logs]

theorem emit_congr : emit ctx' = emit ctx := by
  funext instr
  unfold emit
  rw [write_congr logs]

theorem emitAll_congr : emitAll ctx' = emitAll ctx := by
  funext code
  induction code with
  | nil => rfl
  | cons instr rest ih => rw [emitAll, emitAll, emit_congr logs, ih]

theorem convertTop_congr : convertTop ctx' = convertTop ctx := by
  funext source target conversion
  unfold convertTop writeConversion
  rw [emitAll_congr logs, emit_congr logs]

end

end Gen

/-- The second context differs from the first at most in how it converts values
and resolves members, and there it does the same. -/
structure Context.Refines (tolerance : Tolerance) (ctx ctx' : Context) : Prop where
  isSubtype : ctx'.table.isSubtype = ctx.table.isSubtype
  superclass : ctx'.this.superclass = ctx.this.superclass
  isStatic : ctx'.isStatic = ctx.isStatic
  result : ctx'.result = ctx.result
  probing : ctx'.probing = ctx.probing
  debugCode : ctx'.config.debugCode = ctx.config.debugCode
  implicitVoidReturn : ctx'.config.implicitVoidReturn = ctx.config.implicitVoidReturn
  resolveField : ∀ owner name, Gen.Refines tolerance (Gen.resolveField ctx owner name)
    (Gen.resolveField ctx' owner name)
  resolveMethod : ∀ owner name args isConstructor,
    Gen.Refines tolerance (Gen.resolveMethod ctx owner name args isConstructor)
      (Gen.resolveMethod ctx' owner name args isConstructor)
  coerceTop : ∀ target, Gen.Refines tolerance (Gen.coerceTop ctx target) (Gen.coerceTop ctx' target)
  castTop : ∀ target, Gen.Refines tolerance (Gen.castTop ctx target) (Gen.castTop ctx' target)
  commonType : ∀ first second, Gen.Refines tolerance (Gen.commonType ctx first second)
    (Gen.commonType ctx' first second)

namespace Gen.Refines

variable {tolerance : Tolerance} {ctx ctx' : Context}

section

variable (access : ∀ member, Refines tolerance (checkAccess ctx member) (checkAccess ctx' member))
  (table : ctx'.table = ctx.table)

include access table

/-- Contexts with one table resolve fields alike if they check access alike. -/
theorem resolveField_of_table (owner : JType) (name : String) :
    Refines tolerance (resolveField ctx owner name) (resolveField ctx' owner name) := by
  unfold Gen.resolveField
  rw [table]
  split
  · exact refl _
  · exact bind (access _) fun _ => refl _

theorem resolveMethod_of_table (owner : JType) (name : String) (args : List JType)
    (isConstructor : Bool) :
    Refines tolerance (resolveMethod ctx owner name args isConstructor)
      (resolveMethod ctx' owner name args isConstructor) := by
  unfold Gen.resolveMethod
  rw [table]
  split
  · exact refl _
  · exact bind (access _) fun _ => refl _

end

section

variable (same : ctx.Refines tolerance ctx')

include same

/-! ## Steps -/

theorem write (instr : Instr) : Refines tolerance (write ctx instr) (write ctx' instr) :=
  of_eq (congrFun (write_congr same.debugCode) instr)

theorem emit (instr : Instr) : Refines tolerance (emit ctx instr) (emit ctx' instr) :=
  of_eq (congrFun (emit_congr same.debugCode) instr)

theorem emitOp (code : Opcode) : Refines tolerance (emitOp ctx code) (emitOp ctx' code) :=
  emit same _

theorem jump (code : Opcode) (target : Label) :
    Refines tolerance (jump ctx code target) (jump ctx' code target) :=
  andThen _ fun _ => bind (write same _) fun _ => refl _

theorem place (label : Label) : Refines tolerance (place ctx label) (place ctx' label) :=
  andThen _ fun _ => write same _

theorem probe {operand operand' : Operand} (refines : OfOperand tolerance operand operand') :
    Refines tolerance (probe ctx operand) (probe ctx' operand') := by
  unfold Gen.probe
  rw [same.probing]
  cases ctx.probing with
  | remembered => exact probeRemembered refines
  | fresh => exact probeFresh refines

theorem loadSlot (slot : Slot) (ty : JType) :
    Refines tolerance (loadSlot ctx slot ty) (loadSlot ctx' slot ty) :=
  bind (emit same _) fun _ => refl _

theorem storeSlot (slot : Slot) : Refines tolerance (storeSlot ctx slot) (storeSlot ctx' slot) :=
  andThen _ fun _ => emit same _

theorem load (ref : LocalRef) : Refines tolerance (load ctx ref) (load ctx' ref) :=
  andThen _ fun slot => andThen _ fun ty => loadSlot same slot ty

theorem store (target : LocalRef) {init init' : Gen Unit} (refines : Refines tolerance init init') :
    Refines tolerance (store ctx target init) (store ctx' target init') := by
  refine andThen _ fun found => bind refines.value fun ty => ?_
  obtain ⟨slot, declared⟩ := found
  cases declared with
  | some declared => exact bind (same.coerceTop declared) fun _ => storeSlot same slot
  | none => exact andThen _ fun _ => storeSlot same slot

theorem declare (name : String) (ty : JType) {init init' : Gen Unit}
    (refines : Refines tolerance init init') :
    Refines tolerance (declare ctx name ty init) (declare ctx' name ty init') :=
  bind refines.value fun _ => bind (same.coerceTop ty) fun _ => andThen _ fun slot =>
    storeSlot same slot

theorem increment (target : LocalRef) (step : Int32) :
    Refines tolerance (increment ctx target step) (increment ctx' target step) := by
  refine andThen _ fun slot => andThen _ fun ty => ?_
  cases ty.asPrimitive?.filter Primitive.isNumeric with
  | none => exact refl _
  | some p =>
      have literal : Refines tolerance (constant ctx (stepLiteral step p.computational))
          (constant ctx' (stepLiteral step p.computational)) :=
        bind (emit same _) fun _ => refl _
      exact bind (loadSlot same slot ty) fun _ => bind literal fun _ => andThen _ fun _ =>
        bind (emitOp same _) fun _ => andThen _ fun _ => bind (same.castTop ty) fun _ =>
          storeSlot same slot

theorem of_made {α : Type} {x x' : Gen α} {live : Bool}
    (made : Made ctx ctx' (refining tolerance) live x x') : Refines tolerance x x' := by
  induction made with
  | pure _ | throw _ | onFrame _ _ | onLocals _ _ | newLabel | declareUninit _ _ _ => exact refl _
  | seq _ _ _ first second => exact first.seq second
  | whenAlive _ refines => exact refines.whenAlive
  | emit _ _ | finish _ _ _ | emitVar _ _ _ | receiver _ => exact emit same _
  | jump target _ => exact jump same _ target
  | place label _ => exact place same label
  | part refines | reached refines => exact refines
  | value refines => exact value refines
  | inScope _ refines => exact refines.inScope
  | operation name refines => exact operation name refines
  | probe refines => exact probe same refines
  | load ref _ => exact load same ref
  | store target _ _ _ refines => exact store same target refines
  | declare name ty _ refines => exact declare same name ty refines
  | increment target step _ _ => exact increment same target step

end

end Gen.Refines

/-! ## Bodies -/

open Gen

section

variable {tolerance : Tolerance} {ctx ctx' : Context}

theorem Context.Refines.variant (same : ctx.Refines tolerance ctx') :
    ctx.Variant ctx' (refining tolerance) where
  isSubtype := same.isSubtype
  superclass := same.superclass
  isStatic := same.isStatic
  result := same.result
  coerceTop target := .part (same.coerceTop target)
  castTop target := .part (same.castTop target)
  resolveField owner name := .part (same.resolveField owner name)
  resolveMethod owner name args isConstructor :=
    .part (same.resolveMethod owner name args isConstructor)
  commonType first second := .part (same.commonType first second)

theorem Context.Refines.closed (same : ctx.Refines tolerance ctx') (refs : List LocalRef)
    (stores : List (LocalRef × Fragment)) : (refining tolerance).Closed ctx ctx' refs stores where
  part := Refines.of_made same
  operand pos _ _ refines := Refines.OfOperand.of_code pos refines
  ends := trivial
  places := trivial
  writes := trivial
  refers _ _ := trivial
  stores _ _ _ := trivial

/-- A whole method is generated in the same way. -/
theorem Gen.Refines.method (same : ctx.Refines tolerance ctx') (spec : MethodSpec) :
    Refines tolerance (Gen.method ctx spec) (Gen.method ctx' spec) := by
  have closes : Refines tolerance (Gen.close ctx spec) (Gen.close ctx' spec) := by
    unfold Gen.close
    rw [same.implicitVoidReturn]
    exact .check <| .andThen _ fun _ => .check <| .emitOp same _
  have : ctx.Variant ctx' (refining tolerance) := same.variant
  have body : Refines tolerance (codeFrom ctx [] 0 spec.body) (codeFrom ctx' [] 0 spec.body) :=
    codeFrom_of_closed [] 0 spec.body (same.closed _ _)
  exact .andThen _ fun _ => .ite
    (.andThen _ fun _ => .andThen _ fun _ => .bind body fun _ =>
      .bind closes.whenAlive fun _ => .refl _)
    (.andThen _ fun _ => .bind body fun _ => .bind closes.whenAlive fun _ => .refl _)

end

end JvmAssembler
