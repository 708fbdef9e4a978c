import Mathlib
import JvmAssembler.Proofs.DeclarationOrder
import JvmAssembler.Proofs.LateBinding
import JvmAssembler.Proofs.Vocabulary

/-!
# Classes that use public members only

Generation asks in which package the class under construction is only where a
member is not public.  So where all members are public, tables that answer alike
assemble methods alike, whatever package they give to the class; and as the name
of the class does not matter either, a sample is the same method in all classes.
-/

namespace JvmAssembler

/-- All members may be used by everyone. -/
def MemberTable.IsOpen (table : MemberTable) : Prop :=
  ∀ m ∈ table.members, m.access.isPublic = true

/-- The package of the class is asked for only to check access. -/
theorem MemberTable.Alike.selfPackage (table : MemberTable) (package : String) :
    Alike id table { table with selfPackage := package } :=
  ⟨fun _ => rfl, fun _ _ => rfl⟩

namespace Gen

/-- A run does the same, also where it fails. -/
def exactly : Tolerance where
  errors e e' := e' = e
  errors_refl _ := rfl
  anything := False

section

variable {ctx : Context} {table : MemberTable} (alike : MemberTable.Alike id ctx.table table)

theorem checkAccess_of_isPublic {member : Member} (isPublic : member.access.isPublic = true) :
    checkAccess ctx member = pure () := by
  simp [checkAccess, MemberTable.isAccessible, isPublic]

theorem convertTop_withTable : convertTop { ctx with table } = convertTop ctx :=
  convertTop_congr rfl

include alike

theorem conversion_withTable : conversion { ctx with table } = conversion ctx := by
  funext source target
  rw [conversion, conversion, MemberTable.classify_congr alike.info?_eq]

theorem coerceTop_withTable (target : JType) :
    coerceTop { ctx with table } target = coerceTop ctx target := by
  unfold coerceTop
  rw [conversion_withTable alike, convertTop_withTable]

theorem castTop_withTable (target : JType) :
    castTop { ctx with table } target = castTop ctx target := by
  unfold castTop
  rw [conversion_withTable alike, convertTop_withTable]

theorem commonType_withTable (first second : JType) :
    commonType { ctx with table } first second = commonType ctx first second := by
  unfold commonType JType.common
  rw [MemberTable.classify_congr alike.info?_eq]

variable (isOpen : ctx.table.IsOpen)

include isOpen

theorem resolveField_withTable (owner : JType) (name : String) :
    resolveField { ctx with table } owner name = resolveField ctx owner name := by
  have finds := alike.resolveField_map_eq MemberTable.blind_id owner name
  simp only [Option.map_id_fun, id_eq] at finds
  unfold resolveField
  rw [finds]
  cases found : ctx.table.resolveField owner name with
  | none => rfl
  | some field =>
      have isPublic := isOpen field (MemberTable.of_resolveField found).1
      simp only [checkAccess_of_isPublic isPublic]

theorem resolveMethod_withTable (owner : JType) (name : String) (args : List JType)
    (isConstructor : Bool) :
    resolveMethod { ctx with table } owner name args isConstructor =
      resolveMethod ctx owner name args isConstructor := by
  have finds := alike.resolve_map_eq MemberTable.blind_id owner name args isConstructor
  simp only [Option.map_id_fun, id_eq] at finds
  unfold resolveMethod
  rw [finds]
  cases found : ctx.table.resolve owner name args isConstructor with
  | none => rfl
  | some method =>
      have isPublic := isOpen method (MemberTable.of_resolve found).1
      simp only [checkAccess_of_isPublic isPublic]

/-- Of an open table only the answers matter. -/
theorem refines_withTable : ctx.Refines exactly { ctx with table } where
  isSubtype := MemberTable.isSubtype_congr alike.info?_eq
  superclass := rfl
  isStatic := rfl
  result := rfl
  probing := rfl
  debugCode := rfl
  implicitVoidReturn := rfl
  resolveField owner name := .of_eq (resolveField_withTable alike isOpen owner name)
  resolveMethod owner name args isConstructor :=
    .of_eq (resolveMethod_withTable alike isOpen owner name args isConstructor)
  coerceTop target := .of_eq (coerceTop_withTable alike target)
  castTop target := .of_eq (castTop_withTable alike target)
  commonType first second := .of_eq (commonType_withTable alike first second)

end

end Gen

namespace MethodSpec

/-- An open table and one that answers alike assemble a method alike. -/
theorem assemble_withTable (spec : MethodSpec) {cls : ClassContext} {table : MemberTable}
    (alike : MemberTable.Alike id cls.table table) (isOpen : cls.table.IsOpen) :
    spec.assemble { cls with table } = spec.assemble cls := by
  have same : (spec.context cls).Refines Gen.exactly (spec.context { cls with table }) :=
    Gen.refines_withTable alike isOpen
  have kept : Gen.exactly.Keeps (spec.run (spec.context cls) {})
      (spec.run (spec.context { cls with table }) {}) :=
    Gen.Refines.method same spec { output := {} }
  unfold assemble
  generalize spec.run (spec.context cls) {} = result at kept ⊢
  generalize spec.run (spec.context { cls with table }) {} = result' at kept ⊢
  cases kept with
  | ok limits s => rfl
  | error s same => rw [same]
  | anything _ impossible => exact impossible.elim

/-- What is assembled with an open table is assembled so in every class with the same
superclass and a table that answers alike. -/
theorem assemble_of_isOpen {spec : MethodSpec} {cls cls' : ClassContext}
    {method : AssembledMethod} (assembled : spec.assemble cls = .ok method)
    (isOpen : cls.table.IsOpen) (alike : MemberTable.Alike id cls.table cls'.table)
    (superclass : cls'.this.superclass = cls.this.superclass)
    (config : cls'.config = cls.config) : spec.assemble cls' = .ok method := by
  rw [← spec.assemble_withTable alike isOpen] at assembled
  obtain ⟨method', before, after⟩ | ⟨e, -, failed, -⟩ :=
    spec.assemble_withClass { cls with table := cls'.table } superclass
  · obtain rfl : method' = method := Except.ok.inj (before.symm.trans assembled)
    rw [← after, ← config]
  · simp [failed] at assembled

end MethodSpec

namespace Sample

/-- The tables of the samples differ in the package of the class. -/
theorem table_eq (className other : String) :
    table className = { table other with selfPackage := (table className).selfPackage } := by
  unfold table
  generalize MemberTable.javaLang = base
  generalize packageName (binaryName className) = package
  generalize packageName (binaryName other) = otherPackage
  rfl

theorem alike_table (className other : String) :
    MemberTable.Alike id (table other) (table className) := by
  rw [table_eq className other]
  exact .selfPackage _ _

theorem isOpen_table (className : String) : (table className).IsOpen := by
  have isOpen : ∀ m ∈ (table "Demo").members, m.access.isPublic = true := by
    decide +kernel
  rw [table_eq className "Demo"]
  exact isOpen

/-- A sample is the same method in all classes. -/
theorem assemble_of_assemble {sample : Sample} {className : String} {config : Config}
    {method : AssembledMethod} (assembled : sample.assemble className config = .ok method)
    (other : String) : sample.assemble other config = .ok method := by
  unfold Sample.assemble at assembled ⊢
  exact MethodSpec.assemble_of_isOpen assembled (isOpen_table className)
    (alike_table other className) rfl rfl

end Sample

end JvmAssembler
