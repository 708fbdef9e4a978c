import Mathlib
import JvmAssembler.Sample
import JvmAssembler.Proofs.FormedCode

/-!
# Members and the opcodes that name them

A member instruction boxes or unboxes a value, or it names a member that a
lookup found, that the class under construction may access, and that its opcode
fits: the static access and call opcodes stand with static members, the others
with members of instances, and only `invokespecial` with constructors.

There is one exception.  A call by name does not tell constructors from methods,
so that a body that calls the name of constructors gets a constructor under an
opcode that is made for methods.
-/

namespace JvmAssembler

/-- The instruction boxes a value or takes it out of its box. -/
def Instr.IsBoxing (instr : Instr) : Prop :=
  ∃ p, instr = Conversion.boxInstr p ∨ instr = Conversion.unboxInstr p

theorem Gen.constantInstr_ne_member (literal : Literal) (code : Opcode) (ref : MemberRef) :
    constantInstr literal ≠ .member code ref := by
  cases literal <;> simp only [constantInstr] <;> repeat' split
  all_goals simp

/-- The vocabulary of all types and of the methods that a body calls. -/
def Vocabulary.calling (ctx : Context) (body : Fragment) : Vocabulary ctx where
  proper _ := True
  called name := .call name ∈ mentionsIn body
  simple _ := trivial
  array _ _ := trivial
  element _ := trivial
  param _ _ _ := trivial
  valueType _ := trivial
  result := trivial

theorem Vocabulary.Writes.of_member {ctx : Context} {v : Vocabulary ctx} {code : Opcode}
    {ref : MemberRef} (writes : v.Writes (.member code ref)) :
    (Instr.member code ref).IsBoxing ∨ ∃ m : Member, m.ref = ref ∧ v.Names code m := by
  generalize isMember : Instr.member code ref = instr at writes
  cases writes with
  | box p => exact .inl ⟨p, .inl rfl⟩
  | unbox p => exact .inl ⟨p, .inr rfl⟩
  | member names =>
      obtain ⟨rfl, rfl⟩ := Instr.member.inj isMember
      exact .inr ⟨_, rfl, names⟩
  | constant literal => exact absurd isMember.symm (Gen.constantInstr_ne_member literal code ref)
  | _ => contradiction

/-- A member instruction of an assembled method boxes or unboxes, or names an
accessible member that was found, by an opcode that fits it; an initializer may
have an opcode of methods if the body calls its name. -/
theorem MethodSpec.member_fits_of_assemble (cls : ClassContext) (spec : MethodSpec)
    (method : AssembledMethod) (code : Opcode) (ref : MemberRef)
    (assembled : spec.assemble cls = .ok method) (mem : .member code ref ∈ method.instrs) :
    (Instr.member code ref).IsBoxing ∨
      ∃ m : Member, m.ref = ref ∧ cls.table.Finds m ∧
        cls.table.isAccessible .self m.owner m.access = true ∧
        (code ∈ m.opcodes ∨
          (m.isInitializer = true ∧ .call m.name ∈ mentionsIn spec.body ∧
            code ∈ m.callOpcodes)) := by
  have has : (Vocabulary.calling (spec.context cls) spec.body).Has (mentionsIn spec.body) :=
    ⟨fun _ _ => trivial, fun _ => id⟩
  have writes := writes_of_assemble _ has (fun _ _ => trivial) assembled _ mem
  rcases writes.of_member with boxing | ⟨m, isRef, names⟩
  · exact .inl boxing
  · exact .inr ⟨m, isRef, names.found, names.accessible, names.fits⟩

namespace Sample

open Fragment

/-- The constructor of the root class. -/
def objectInit : MemberRef :=
  .method .object constructorName [] .void

/-- Calls the constructor of the root class on an object by its name. -/
def initByName : MethodSpec where
  name := "f"
  access := .publicStatic
  params := [("o", .object)]
  result := .void
  body := loadNamed "o" ++ [.invoke constructorName [], .returnVoid]

/-- The instructions and limits of `initByName`. -/
def initByNameMethod : AssembledMethod :=
  initByName.assembled (classContext "Demo" {})
    [.var .aload 0, .member .invokevirtual objectInit, .op .returnVoid] ⟨1, 1⟩

theorem initByName_assemble :
    initByName.assemble (classContext "Demo" {}) = .ok initByNameMethod := by
  decide +kernel

theorem invokevirtual_not_isBoxing {ref : MemberRef} (isObject : ref.owner = .object) :
    ¬(Instr.member .invokevirtual ref).IsBoxing := by
  rintro ⟨p, boxing | unboxing⟩
  · cases p <;> cases boxing
  · cases p <;> cases unboxing <;> revert isObject <;> decide

def hashCode : MemberRef :=
  .method .object "hashCode" [] .int

/-- Calls a method of an object before the constructor. -/
def hashAndInit : MethodSpec :=
  { initByName with body := loadNamed "o" ++ [.invoke "hashCode" [], .pop] ++ initByName.body }

/-- The instructions and limits of `hashAndInit`. -/
def hashAndInitMethod : AssembledMethod :=
  hashAndInit.assembled (classContext "Demo" {})
    [.var .aload 0, .member .invokevirtual hashCode, .op .pop, .var .aload 0,
      .member .invokevirtual objectInit, .op .returnVoid] ⟨1, 1⟩

/-- The first call fits the method, and the call by name is the exception. -/
theorem hashAndInit_member_fits :
    hashAndInit.assemble (classContext "Demo" {}) = .ok hashAndInitMethod ∧
      (.member .invokevirtual hashCode ∈ hashAndInitMethod.instrs ∧
        ∃ m : Member, m.ref = hashCode ∧ (classContext "Demo" {}).table.Finds m ∧
          (classContext "Demo" {}).table.isAccessible .self m.owner m.access = true ∧
          .invokevirtual ∈ m.opcodes) ∧
      .member .invokevirtual objectInit ∈ hashAndInitMethod.instrs ∧
        ∃ m : Member, m.ref = objectInit ∧ (classContext "Demo" {}).table.Finds m ∧
          (classContext "Demo" {}).table.isAccessible .self m.owner m.access = true ∧
          (.invokevirtual ∈ m.opcodes ∨
            (m.isInitializer = true ∧ .call m.name ∈ mentionsIn hashAndInit.body ∧
              .invokevirtual ∈ m.callOpcodes)) := by
  have assembled : hashAndInit.assemble (classContext "Demo" {}) = .ok hashAndInitMethod := by
    decide +kernel
  have fits {ref : MemberRef} := MethodSpec.member_fits_of_assemble (classContext "Demo" {})
    hashAndInit hashAndInitMethod .invokevirtual ref assembled
  have ordinary : ∀ m ∈ (classContext "Demo" {}).table.members, m.ref = hashCode →
      m.isInitializer = false := by
    decide +kernel
  have call : .member .invokevirtual hashCode ∈ hashAndInitMethod.instrs := by
    simp [hashAndInitMethod, MethodSpec.assembled]
  have init : .member .invokevirtual objectInit ∈ hashAndInitMethod.instrs := by
    simp [hashAndInitMethod, MethodSpec.assembled]
  refine ⟨assembled, ⟨call, ?_⟩, init, (fits init).resolve_left (invokevirtual_not_isBoxing rfl)⟩
  obtain ⟨m, isRef, found, accessible, isFit⟩ :=
    (fits call).resolve_left (invokevirtual_not_isBoxing rfl)
  refine ⟨m, isRef, found, accessible, isFit.resolve_right fun exceptional => ?_⟩
  simp [ordinary m found.mem isRef] at exceptional

/-- No member with this reference fits the opcode of the call by name. -/
theorem initByName_unfit :
    initByName.assemble (classContext "Demo" {}) = .ok initByNameMethod ∧
      .member .invokevirtual objectInit ∈ initByNameMethod.instrs ∧
      ¬((Instr.member .invokevirtual objectInit).IsBoxing ∨
        ∃ m : Member, m.ref = objectInit ∧ (classContext "Demo" {}).table.Finds m ∧
          (classContext "Demo" {}).table.isAccessible .self m.owner m.access = true ∧
          .invokevirtual ∈ m.opcodes) := by
  refine ⟨initByName_assemble, by simp [initByNameMethod, MethodSpec.assembled], ?_⟩
  rintro (boxing | ⟨m, isRef, found, -, fits⟩)
  · exact invokevirtual_not_isBoxing rfl boxing
  · have unfit : ∀ m ∈ (classContext "Demo" {}).table.members, m.ref = objectInit →
        .invokevirtual ∉ m.opcodes := by
      decide +kernel
    exact unfit m found.mem isRef fits

end Sample

end JvmAssembler
