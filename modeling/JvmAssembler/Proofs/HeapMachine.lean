import Mathlib
import JvmAssembler.MemberTable.JavaLang
import JvmAssembler.Proofs.ProgramRun

/-!
# Runs in a world of objects

The machine for instruction lists stops where an instruction touches what methods
share.  Here some of these instructions go on: an array of `int` is read, a
reference is checked for a class, strings are compared and a static field is
written.  Where such an instruction would raise an exception, the machine stops.

A run leads from a machine in one world to a machine in another, and a method
returns at most one value and leaves at most one world.
-/

namespace JvmAssembler

/-! ## What methods share -/

/-- An array of `int`.  Its length is an `int`. -/
structure IntArray where
  elements : List Int32
  length_lt : elements.length < 2 ^ 31

namespace IntArray

def length (array : IntArray) : Int32 :=
  Int32.ofNat array.elements.length

/-- The element at an index within the bounds. -/
def at? (array : IntArray) (index : Int32) : Option Int32 :=
  if 0 ≤ index.toInt then array.elements[index.toInt.toNat]? else none

variable {array : IntArray} {k : Nat}

theorem toInt_length : array.length.toInt = array.elements.length :=
  Int32.toInt_ofNat_of_lt array.length_lt

theorem at?_ofNat (inside : k < array.elements.length) :
    array.at? (Int32.ofNat k) = some array.elements[k] := by
  have toInt := Int32.toInt_ofNat_of_lt (inside.trans array.length_lt)
  simp [at?, toInt, inside]

end IntArray

/-- Arrays and static fields. -/
structure World where
  /-- The arrays of `int`, by the number of the object. -/
  arrays : Nat → Option IntArray
  /-- The values of static fields, by owner and name. -/
  statics : JType × String → Value

namespace World

def setStatic (world : World) (field : JType × String) (value : Value) : World :=
  { world with statics := Function.update world.statics field value }

/-- The class of an object; the null reference has a type of its own. -/
def classOf? (world : World) : Reference → Option JType
  | .null => some .null
  | .text _ => some .string
  | .object number => (world.arrays number).map fun _ => .array .int

/-- Whether a cast to this type succeeds. -/
def admits (world : World) (object : Reference) (target : JType) : Bool :=
  (world.classOf? object).any fun ty => MemberTable.javaLang.isSubtype ty target

end World

/-! ## Steps -/

/-- The method that compares a string with an object. -/
def MemberRef.stringEquals : MemberRef :=
  .method .string "equals" [.object] .boolean

/-- Whether the string below the top equals the object on top, as an `int`. -/
def compareStrings : List Value → Option (List Value)
  | .reference argument :: .reference (.text receiver) :: rest =>
      some (.int (if argument = .text receiver then 1 else 0) :: rest)
  | _ => none

/-- The operands and the world after an instruction that touches the world. -/
def Instr.touch (world : World) : Instr → List Value → Option (List Value × World)
  | .op code, .reference (.object number) :: rest =>
      if code = .arraylength then
        (world.arrays number).map fun array => (.int array.length :: rest, world)
      else none
  | .op code, .int index :: .reference (.object number) :: rest =>
      if code = .iaload then
        ((world.arrays number).bind (·.at? index)).map fun element => (.int element :: rest, world)
      else none
  | .type code target, .reference object :: rest =>
      if code = .checkcast ∧ world.admits object target then
        some (.reference object :: rest, world)
      else none
  | .member code ref, value :: rest =>
      if code = .putstatic then
        if value.category = ref.signature.result.category then
          some (rest, world.setStatic (ref.owner, ref.name) value)
        else none
      else if code = .invokevirtual ∧ ref = .stringEquals then
        (compareStrings (value :: rest)).map (·, world)
      else none
  | _, _ => none

/-- A machine in a world. -/
structure HeapMachine where
  machine : Machine
  world : World

namespace HeapMachine

/-- Execute one instruction, which may touch the world. -/
def step? (program : List Instr) (m : HeapMachine) : Option HeapMachine :=
  match m.machine.step? program with
  | some (_, next) => some { m with machine := next }
  | none =>
      match m.machine.point with
      | .code (instr :: rest) =>
          (instr.touch m.world m.machine.stack).map fun (stack, world) =>
            ⟨⟨.code rest, stack, m.machine.store⟩, world⟩
      | _ => none

/-- A run from one state to another. -/
def Leads (program : List Instr) : HeapMachine → HeapMachine → Prop :=
  Relation.ReflTransGen fun m next => m.step? program = some next

/-- The run from a state returns a value and leaves a world. -/
def Yields (program : List Instr) (m : HeapMachine) (value : Value) (world' : World) : Prop :=
  ∃ last, Leads program m ⟨last, world'⟩ ∧ last.point = .done (some value)

section

variable {program rest : List Instr} {instr : Instr} {stack stack' : List Value}
variable {store store' : Store} {world world' world'' : World} {value : Value}

theorem Yields.of_step {m next : HeapMachine} (stepped : m.step? program = some next)
    (yields : Yields program next value world') : Yields program m value world' := by
  obtain ⟨last, leads, done⟩ := yields
  exact ⟨last, .head stepped leads, done⟩

theorem Yields.go (acts : instr.act stack store = some (.go stack' store'))
    (yields : Yields program ⟨⟨.code rest, stack', store'⟩, world⟩ value world') :
    Yields program ⟨⟨.code (instr :: rest), stack, store⟩, world⟩ value world' :=
  .of_step (by simp [step?, Machine.step?, acts]) yields

theorem Yields.jump {target : Label} {after : List Instr}
    (acts : instr.act stack store = some (.jump target stack'))
    (goes : destination program target = .code after)
    (yields : Yields program ⟨⟨.code after, stack', store⟩, world⟩ value world') :
    Yields program ⟨⟨.code (instr :: rest), stack, store⟩, world⟩ value world' :=
  .of_step (by simp [step?, Machine.step?, acts, goes]) yields

theorem Yields.touch (stops : instr.act stack store = none)
    (touches : instr.touch world stack = some (stack', world''))
    (yields : Yields program ⟨⟨.code rest, stack', store⟩, world''⟩ value world') :
    Yields program ⟨⟨.code (instr :: rest), stack, store⟩, world⟩ value world' :=
  .of_step (by simp [step?, Machine.step?, stops, touches]) yields

theorem Yields.finish (acts : instr.act stack store = some (.finish (some value))) :
    Yields program ⟨⟨.code (instr :: rest), stack, store⟩, world⟩ value world :=
  ⟨⟨.done (some value), [], store⟩, .single (by simp [step?, Machine.step?, acts]), rfl⟩

theorem step?_of_done {m : HeapMachine} {result : Option Value}
    (done : m.machine.point = .done result) : m.step? program = none := by
  simp [step?, Machine.step?, done]

/-- A run returns at most one value and leaves at most one world. -/
theorem Yields.unique {m : HeapMachine} {value' : Value} (one : Yields program m value world')
    (other : Yields program m value' world'') : value' = value ∧ world'' = world' := by
  obtain ⟨last, leads, done⟩ := one
  obtain ⟨last', leads', done'⟩ := other
  have stays {m target : HeapMachine} {result : Option Value}
      (done : m.machine.point = .done result) (leads : Leads program m target) : target = m := by
    rcases Relation.ReflTransGen.cases_head leads with same | ⟨next, stepped, -⟩
    · exact same.symm
    · simp [step?_of_done done] at stepped
  have rightUnique : Relator.RightUnique fun m next : HeapMachine => m.step? program = some next :=
    fun _ _ _ stepped stepped' => Option.some.inj (stepped.symm.trans stepped')
  have same : (⟨last', world''⟩ : HeapMachine) = ⟨last, world'⟩ := by
    rcases Relation.ReflTransGen.total_of_right_unique rightUnique leads leads' with more | more
    · exact stays done more
    · exact (stays done' more).symm
  obtain ⟨rfl, rfl⟩ := HeapMachine.mk.inj same
  exact ⟨by simpa [done'] using done, rfl⟩

end

end HeapMachine

/-! ## Single instructions -/

theorem RelOp.holds_ge (a b : Int) : RelOp.ge.holds (compare a b) = decide (b ≤ a) := by
  have lt_iff : compare a b = .lt ↔ a < b := compare_lt_iff_lt
  by_cases le : b ≤ a
  · simp [RelOp.holds, lt_iff, le]
  · simp [RelOp.holds, lt_iff, le, not_le.mp le]

namespace Opcode

theorem calculation?_iconst0 : iconst0.calculation? = some (.constant (.int 0)) :=
  rfl

theorem calculation?_iconst1 : iconst1.calculation? = some (.constant (.int 1)) :=
  rfl

theorem calculation?_iconstM1 : (iconst0 - 1).calculation? = some (.constant (.int (-1))) :=
  rfl

theorem calculation?_iadd : iadd.calculation? = some (.intBinary fun a b => .int (a + b)) :=
  rfl

theorem calculation?_imul : imul.calculation? = some (.intBinary fun a b => .int (a * b)) :=
  rfl

end Opcode

/-- A write of a narrow value does not reach a narrow value in another slot. -/
theorem Store.set_of_narrow {store : Store} {slot other : Slot} {value held : Value}
    (holds : store other = some held) (heldNarrow : held.category.isWide = false)
    (narrow : value.category.isWide = false) (apart : other ≠ slot) :
    store.set slot value other = some held := by
  have numbersApart : other.toNat ≠ slot.toNat := fun same => apart (UInt16.toNat_inj.mp same)
  refine Store.set_of_disjoint holds ?_
  simp only [Category.width, heldNarrow, narrow, Bool.false_eq_true, if_false]
  omega

namespace HeapMachine

variable {program rest : List Instr} {stack stack' : List Value} {code : Opcode} {slot : Slot}
variable {store : Store} {world world' : World} {held value : Value} {target : Label}

theorem Yields.calculate {calculation : Calculation}
    (calculates : code.calculation? = some calculation)
    (applies : calculation.apply stack = some stack')
    (yields : Yields program ⟨⟨.code rest, stack', store⟩, world⟩ value world') :
    Yields program ⟨⟨.code (.op code :: rest), stack, store⟩, world⟩ value world' :=
  .go (by simp [Instr.act, calculates, applies]) yields

theorem Yields.load (holds : store slot = some held)
    (isLoad : (Opcode.iload ≤ code && code ≤ Opcode.aload) = true)
    (fits : held.category = Opcode.familyCategory (code - Opcode.iload))
    (yields : Yields program ⟨⟨.code rest, held :: stack, store⟩, world⟩ value world') :
    Yields program ⟨⟨.code (.var code slot :: rest), stack, store⟩, world⟩ value world' :=
  .go (by rw [Instr.act, if_pos isLoad, holds, Option.bind_some, if_pos fits]) yields

theorem Yields.istore {n : Int32}
    (yields : Yields program ⟨⟨.code rest, stack, store.set slot (.int n)⟩, world⟩ value world') :
    Yields program ⟨⟨.code (.var .istore slot :: rest), .int n :: stack, store⟩, world⟩ value
      world' :=
  .go rfl yields

theorem Yields.branch_falls {test : Test} (tests : code.test? = some test)
    (applies : test.apply stack = some (false, stack'))
    (yields : Yields program ⟨⟨.code rest, stack', store⟩, world⟩ value world') :
    Yields program ⟨⟨.code (.jump code target :: rest), stack, store⟩, world⟩ value world' :=
  .go (by simp [Instr.act, tests, applies]) yields

theorem Yields.branch_taken {test : Test} {after : List Instr} (tests : code.test? = some test)
    (applies : test.apply stack = some (true, stack'))
    (goes : destination program target = .code after)
    (yields : Yields program ⟨⟨.code after, stack', store⟩, world⟩ value world') :
    Yields program ⟨⟨.code (.jump code target :: rest), stack, store⟩, world⟩ value world' :=
  .jump (by simp [Instr.act, tests, applies]) goes yields

/-- A comparison of two numbers branches if the lower is not less than the upper. -/
theorem Yields.ifIcmpge {a b : Int32} {after : List Instr}
    (goes : destination program target = .code after)
    (yields : Yields program
      ⟨⟨.code (if b.toInt ≤ a.toInt then after else rest), stack, store⟩, world⟩ value world') :
    Yields program
      ⟨⟨.code (.jump RelOp.ge.intBranch target :: rest), .int b :: .int a :: stack, store⟩, world⟩
      value world' := by
  have applies : Test.apply (.int .ge) (.int b :: .int a :: stack) =
      some (decide (b.toInt ≤ a.toInt), stack) := by
    rw [Test.apply, RelOp.holds_ge]
  by_cases le : b.toInt ≤ a.toInt
  · rw [if_pos le] at yields
    rw [decide_eq_true le] at applies
    exact .branch_taken (RelOp.test?_intBranch _) applies goes yields
  · rw [if_neg le] at yields
    rw [decide_eq_false le] at applies
    exact .branch_falls (RelOp.test?_intBranch _) applies yields

end HeapMachine

/-! ## Runs of a method -/

namespace AssembledMethod

/-- The static method returns a value and leaves a world. -/
def ReturnsIn (method : AssembledMethod) (world : World) (args : List Value) (value : Value)
    (world' : World) : Prop :=
  HeapMachine.Yields method.instrs ⟨method.start .null args, world⟩ value world'

/-- What a method returns is all that it returns. -/
theorem ReturnsIn.iff {method : AssembledMethod} {world world' world'' : World}
    {args : List Value} {value value' : Value} (returns : method.ReturnsIn world args value world') :
    method.ReturnsIn world args value' world'' ↔ value' = value ∧ world'' = world' := by
  constructor
  · exact HeapMachine.Yields.unique returns
  · rintro ⟨rfl, rfl⟩
    exact returns

end AssembledMethod

end JvmAssembler
