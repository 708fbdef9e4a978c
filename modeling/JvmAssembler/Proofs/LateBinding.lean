import Mathlib
import JvmAssembler.Sample
import JvmAssembler.Proofs.Refinement

/-!
# The class may be named late

Generation asks the class under construction for its superclass, and for its
name only to say who was refused access to a member.  Main statement: a class
without a name assembles the methods that it would assemble with one, and once
it has got the name they are encoded in the same way.
-/

namespace JvmAssembler

/-! ## Errors that name the class -/

/-- The error without the name of the class that was refused access. -/
def Error.maskAccessor : Error → Error
  | .inaccessible member _ => .inaccessible member ""
  | e => e

theorem Error.ctorIdx_maskAccessor (e : Error) : e.maskAccessor.ctorIdx = e.ctorIdx := by
  cases e <;> rfl

namespace Gen

/-- A failing run may name another class that was refused access. -/
def upToAccessor : Tolerance where
  errors e e' := e'.maskAccessor = e.maskAccessor
  errors_refl _ := rfl
  anything := False

/-! ## Contexts that differ in the class -/

section

variable (ctx : Context) (this : ClassHandle)

theorem convertTop_withClass : convertTop { ctx with this } = convertTop ctx :=
  convertTop_congr rfl

theorem coerceTop_withClass (target : JType) :
    coerceTop { ctx with this } target = coerceTop ctx target := by
  unfold coerceTop
  rw [convertTop_withClass]
  rfl

theorem castTop_withClass (target : JType) :
    castTop { ctx with this } target = castTop ctx target := by
  unfold castTop
  rw [convertTop_withClass]
  rfl

theorem checkAccess_withClass (member : Member) :
    Refines upToAccessor (checkAccess ctx member) (checkAccess { ctx with this } member) := by
  unfold checkAccess
  split
  · exact .refl _
  · exact fun s => .error s rfl

/-- Of the class only the superclass matters. -/
theorem refines_withClass (superclass : this.superclass = ctx.this.superclass) :
    ctx.Refines upToAccessor { ctx with this } where
  isSubtype := rfl
  superclass := superclass
  isStatic := rfl
  result := rfl
  probing := rfl
  debugCode := rfl
  implicitVoidReturn := rfl
  resolveField := .resolveField_of_table (checkAccess_withClass ctx this) rfl
  resolveMethod := .resolveMethod_of_table (checkAccess_withClass ctx this) rfl
  coerceTop target := .of_eq (coerceTop_withClass ctx this target)
  castTop target := .of_eq (castTop_withClass ctx this target)
  commonType _ _ := .refl _

end

end Gen

/-! ## Naming the class after assembling -/

theorem ClassHandle.setName_unnamed (superclass name : String) :
    (unnamed superclass).setName name = .ok (named name superclass) :=
  rfl

namespace MethodSpec

/-- Two classes with the same superclass assemble a method to the same
instructions and limits, or both fail, with errors that differ at most in the
name of the class. -/
theorem assemble_withClass (spec : MethodSpec) (cls : ClassContext) {this : ClassHandle}
    (superclass : this.superclass = cls.this.superclass) :
    (∃ method, spec.assemble cls = .ok method ∧ spec.assemble { cls with this } = .ok method) ∨
      ∃ e e', spec.assemble cls = .error e ∧ spec.assemble { cls with this } = .error e' ∧
        e'.maskAccessor = e.maskAccessor := by
  have same := Gen.refines_withClass (spec.context cls) this superclass
  have kept : Gen.upToAccessor.Keeps (spec.run (spec.context cls) {})
      (spec.run (spec.context { cls with this }) {}) :=
    Gen.Refines.method same spec { output := {} }
  unfold assemble
  generalize spec.run (spec.context cls) {} = result at kept ⊢
  generalize spec.run (spec.context { cls with this }) {} = result' at kept ⊢
  cases kept with
  | ok limits s => exact .inl ⟨_, rfl, rfl⟩
  | error s differ => exact .inr ⟨_, _, rfl, rfl, differ⟩
  | anything _ impossible => exact impossible.elim

/-- The name of the class does not influence assembling.  A method is assembled
in a class without a name exactly if it is in one that was named from the start,
to the same instructions and limits; failures are of the same variant and differ
at most in the name of the class.  Once the class is named, encoding gives the
same bytes or error and the same pool. -/
theorem assemble_lateBound (spec : MethodSpec) (table : MemberTable) (config : Config)
    (superclass name : String) :
    (∀ method, spec.assemble ⟨.unnamed superclass, table, config⟩ = .ok method ↔
      spec.assemble ⟨.named name superclass, table, config⟩ = .ok method) ∧
    (∀ e e', spec.assemble ⟨.unnamed superclass, table, config⟩ = .error e →
      spec.assemble ⟨.named name superclass, table, config⟩ = .error e' →
        e'.ctorIdx = e.ctorIdx ∧ e'.maskAccessor = e.maskAccessor) ∧
    ∃ this, (ClassHandle.unnamed superclass).setName name = .ok this ∧
      ∀ early late, spec.assemble ⟨.unnamed superclass, table, config⟩ = .ok early →
        spec.assemble ⟨.named name superclass, table, config⟩ = .ok late →
          ∀ pool, early.encode this pool = late.encode (.named name superclass) pool := by
  have agree := assemble_withClass spec ⟨.unnamed superclass, table, config⟩
    (rfl : (ClassHandle.named name superclass).superclass = _)
  have setName := ClassHandle.setName_unnamed superclass name
  obtain ⟨method, unnamed, named⟩ | ⟨e, e', unnamed, named, differ⟩ := agree
  · rw [unnamed, named]
    refine ⟨fun _ => Iff.rfl, by simp, _, setName, ?_⟩
    rintro early late ⟨⟩ ⟨⟩ pool
    rfl
  · rw [unnamed, named]
    refine ⟨by simp, ?_, _, setName, by simp⟩
    rintro _ _ ⟨⟩ ⟨⟩
    have variant := congrArg Error.ctorIdx differ
    rw [Error.ctorIdx_maskAccessor, Error.ctorIdx_maskAccessor] at variant
    exact ⟨variant, differ⟩

end MethodSpec

namespace Sample

/-- `return secret.Vault.code;`, which only that class may read. -/
def readSecret : MethodSpec where
  name := "peek"
  access := .publicStatic
  result := .int
  body := [.getStatic (.named "secret.Vault") "code", .returnValue]

/-- The members of the samples and a private field of another class. -/
def vaultTable : MemberTable :=
  (table "Demo").declareField (.named "secret.Vault") "code" .int
    (.union .privateFlag .staticFlag)

/-- A method that refers to its class, and one that is refused access in both
classes, with different messages. -/
theorem branchNames_lateBound :
    (∃ method this,
      branchNames.assemble ⟨.unnamed "java.lang.Object", vaultTable, {}⟩ = .ok method ∧
      branchNames.assemble ⟨.named "Demo" "java.lang.Object", vaultTable, {}⟩ = .ok method ∧
      (ClassHandle.unnamed "java.lang.Object").setName "Demo" = .ok this ∧
      ∀ pool, method.encode this pool = method.encode (.named "Demo" "java.lang.Object") pool) ∧
    ∃ e e', readSecret.assemble ⟨.unnamed "java.lang.Object", vaultTable, {}⟩ = .error e ∧
      readSecret.assemble ⟨.named "Demo" "java.lang.Object", vaultTable, {}⟩ = .error e' ∧
      e.message ≠ e'.message ∧ e'.ctorIdx = e.ctorIdx ∧ e'.maskAccessor = e.maskAccessor := by
  obtain ⟨same, -, this, setName, encodes⟩ := MethodSpec.assemble_lateBound branchNames vaultTable {}
    "java.lang.Object" "Demo"
  obtain ⟨-, differ, -⟩ := MethodSpec.assemble_lateBound readSecret vaultTable {}
    "java.lang.Object" "Demo"
  have succeeds :
      (branchNames.assemble ⟨.unnamed "java.lang.Object", vaultTable, {}⟩).isOk = true := by
    decide +kernel
  have vaultCode : ∃ code : Member,
      readSecret.assemble ⟨.unnamed "java.lang.Object", vaultTable, {}⟩ =
        .error (.inaccessible code "<this>") ∧
      readSecret.assemble ⟨.named "Demo" "java.lang.Object", vaultTable, {}⟩ =
        .error (.inaccessible code "Demo") ∧
      (Error.inaccessible code "<this>").message ≠ (Error.inaccessible code "Demo").message :=
    ⟨{ owner := .named "secret.Vault", name := "code", kind := .field, signature := ⟨[], .int⟩,
       throws := [], access := .union .privateFlag .staticFlag, ownerIsInterface := false },
      by decide +kernel⟩
  constructor
  · cases early : branchNames.assemble ⟨.unnamed "java.lang.Object", vaultTable, {}⟩ with
    | ok method =>
        have late := (same method).mp early
        exact ⟨method, this, rfl, late, setName, encodes method method early late⟩
    | error e => simp [early, Except.isOk, Except.toBool] at succeeds
  · obtain ⟨code, unnamed, named, texts⟩ := vaultCode
    exact ⟨_, _, unnamed, named, texts, differ _ _ unnamed named⟩

end Sample

end JvmAssembler
