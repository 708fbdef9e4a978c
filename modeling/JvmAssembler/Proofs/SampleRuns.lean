import Mathlib
import JvmAssembler.Proofs.HeapMachine
import JvmAssembler.Proofs.PublicMembers

/-!
# What the samples compute

The samples are the same instructions in all classes.  Main statement: run on any
arguments and in any world, they return the sum of an array, the absolute value of
a number, the smaller of two numbers, and the name of the branch that a text
takes, and only the last changes the world, in the one flag of that branch.
-/

namespace JvmAssembler

namespace Sample

open JvmAssembler.HeapMachine JvmAssembler.Opcode

/-! ## Numbers -/

def absoluteCode : List Instr :=
  [.var .iload 0, .op .iconst0, .jump RelOp.ge.intBranch ⟨0⟩, .var .iload 0, .op (.iconst0 - 1),
    .op .imul, .op .ireturn, .label ⟨0⟩, .var .iload 0, .op .ireturn]

theorem absolute_yields (v : Int32) (world : World) :
    Yields absoluteCode ⟨⟨.code absoluteCode, [], .entry true .null [.int v]⟩, world⟩
      (.int (if 0 ≤ v.toInt then v else Int32.ofInt (-v.toInt))) world := by
  have product : v * -1 = Int32.ofInt (-v.toInt) := by
    rw [Int32.ofInt_neg, Int32.ofInt_toInt, Int32.mul_neg, Int32.mul_one]
  refine .load rfl rfl rfl <| .calculate calculation?_iconst0 rfl <| .ifIcmpge rfl ?_
  rw [Int32.toInt_zero]
  split
  · exact .load rfl rfl rfl <| .finish rfl
  · rw [← product]
    exact .load rfl rfl rfl <| .calculate calculation?_iconstM1 rfl <|
      .calculate calculation?_imul rfl <| .finish rfl

def minimumCode : List Instr :=
  [.var .iload 0, .var .iload 1, .jump RelOp.ge.intBranch ⟨0⟩, .var .iload 0, .jump .goto ⟨1⟩,
    .label ⟨0⟩, .var .iload 1, .label ⟨1⟩, .op .ireturn]

theorem minimum_yields (a b : Int32) (world : World) :
    Yields minimumCode ⟨⟨.code minimumCode, [], .entry true .null [.int a, .int b]⟩, world⟩
      (.int (Int32.ofInt (min a.toInt b.toInt))) world := by
  refine .load rfl rfl rfl <| .load rfl rfl rfl <| .ifIcmpge rfl ?_
  split <;> rename_i le
  · rw [min_eq_right le, Int32.ofInt_toInt]
    exact .load rfl rfl rfl <| .go rfl <| .finish rfl
  · rw [min_eq_left (not_le.mp le).le, Int32.ofInt_toInt]
    exact .load rfl rfl rfl <| .branch_taken rfl rfl rfl <| .finish rfl

/-! ## A loop over an array -/

def arraySumLoop : List Instr :=
  [.var .iload 2, .var .aload 0, .op .arraylength, .jump RelOp.ge.intBranch ⟨1⟩, .var .iload 1,
    .var .aload 0, .var .iload 2, .op .iaload, .op .iadd, .var .istore 1, .var .iload 2,
    .op .iconst1, .op .iadd, .var .istore 2, .jump .goto ⟨0⟩, .label ⟨1⟩, .var .iload 1,
    .op .ireturn]

def arraySumCode : List Instr :=
  [.op .iconst0, .var .istore 1, .op .iconst0, .var .istore 2, .label ⟨0⟩] ++ arraySumLoop

/-- The sum of the first elements, as an `int`. -/
def partialSum (array : IntArray) (k : Nat) : Int32 :=
  Int32.ofInt ((array.elements.take k).map (·.toInt)).sum

/-- Before each turn of the loop the sum of the first elements is known. -/
structure SumStore (number : Nat) (array : IntArray) (k : Nat) (store : Store) : Prop where
  array_eq : store 0 = some (.reference (.object number))
  total_eq : store 1 = some (.int (partialSum array k))
  index_eq : store 2 = some (.int (Int32.ofNat k))

section

variable {number k : Nat} {array : IntArray} {store : Store} {world : World}

theorem partialSum_succ (inside : k < array.elements.length) :
    partialSum array (k + 1) = partialSum array k + array.elements[k] := by
  simp only [partialSum, List.map_take]
  rw [List.sum_take_succ _ _ (by simpa using inside), Int32.ofInt_add]
  simp

/-- One turn of the loop adds one more element. -/
theorem SumStore.next (before : SumStore number array k store)
    (inside : k < array.elements.length) :
    SumStore number array (k + 1)
      ((store.set 1 (.int (partialSum array k + array.elements[k]))).set 2
        (.int (Int32.ofNat k + 1))) where
  array_eq :=
    Store.set_of_narrow (Store.set_of_narrow before.array_eq rfl rfl (by decide)) rfl rfl (by decide)
  total_eq := by
    rw [partialSum_succ inside]
    exact Store.set_of_narrow (Store.set_self store 1 _) rfl rfl (by decide)
  index_eq := by
    rw [Int32.ofNat_add]
    exact Store.set_self _ 2 _

theorem SumStore.first (number : Nat) (array : IntArray) :
    SumStore number array 0
      (((Store.entry true .null [.reference (.object number)]).set 1 (.int 0)).set 2 (.int 0)) :=
  ⟨rfl, rfl, rfl⟩

theorem length_le_index_iff (le : k ≤ array.elements.length) :
    array.length.toInt ≤ (Int32.ofNat k).toInt ↔ array.elements.length ≤ k := by
  have toInt_k : (Int32.ofNat k).toInt = k :=
    Int32.toInt_ofNat_of_lt (le.trans_lt array.length_lt)
  rw [toInt_k, IntArray.toInt_length, Int.ofNat_le]

theorem touch_arraylength (known : world.arrays number = some array) (stack : List Value) :
    (Instr.op .arraylength).touch world (.reference (.object number) :: stack) =
      some (.int array.length :: stack, world) := by
  simp [Instr.touch, known]

theorem touch_iaload (known : world.arrays number = some array)
    (inside : k < array.elements.length) (stack : List Value) :
    (Instr.op .iaload).touch world (.int (Int32.ofNat k) :: .reference (.object number) :: stack) =
      some (.int array.elements[k] :: stack, world) := by
  simp [Instr.touch, known, IntArray.at?_ofNat inside]

/-- The loop ends with the sum of all elements.  The induction is on the number of elements
that are still to be added. -/
theorem arraySumLoop_yields (known : world.arrays number = some array) (remaining : Nat)
    (count : k + remaining = array.elements.length) (before : SumStore number array k store) :
    Yields arraySumCode ⟨⟨.code arraySumLoop, [], store⟩, world⟩
      (.int (partialSum array array.elements.length)) world := by
  induction remaining generalizing k store with
  | zero =>
      have done : k = array.elements.length := count
      refine .load before.index_eq rfl rfl <| .load before.array_eq rfl rfl <|
        .touch rfl (touch_arraylength known _) <| .ifIcmpge rfl ?_
      rw [if_pos ((length_le_index_iff done.le).mpr done.ge), ← done]
      exact .load before.total_eq rfl rfl <| .finish rfl
  | succ remaining ih =>
      have inside : k < array.elements.length := by omega
      have index_eq : store.set 1 (.int (partialSum array k + array.elements[k])) 2 =
          some (.int (Int32.ofNat k)) :=
        Store.set_of_narrow before.index_eq rfl rfl (by decide)
      refine .load before.index_eq rfl rfl <| .load before.array_eq rfl rfl <|
        .touch rfl (touch_arraylength known _) <| .ifIcmpge rfl ?_
      rw [if_neg (mt (length_le_index_iff inside.le).mp (not_le.mpr inside))]
      refine .load before.total_eq rfl rfl <| .load before.array_eq rfl rfl <|
        .load before.index_eq rfl rfl <| .touch rfl (touch_iaload known inside _) ?_
      refine .calculate calculation?_iadd rfl <| .istore <| .load index_eq rfl rfl <|
        .calculate calculation?_iconst1 rfl <| .calculate calculation?_iadd rfl <| .istore ?_
      exact .branch_taken rfl rfl rfl <| ih (by omega) (before.next inside)

theorem arraySum_yields (known : world.arrays number = some array) :
    Yields arraySumCode
      ⟨⟨.code arraySumCode, [], .entry true .null [.reference (.object number)]⟩, world⟩
      (.int (Int32.ofInt (array.elements.map (·.toInt)).sum)) world := by
  have total : partialSum array array.elements.length =
      Int32.ofInt (array.elements.map (·.toInt)).sum := by
    simp [partialSum]
  rw [← total]
  exact .calculate calculation?_iconst0 rfl <| .istore <| .calculate calculation?_iconst0 rfl <|
    .istore <| .go rfl <| arraySumLoop_yields known _ (Nat.zero_add _) (.first number array)

end

/-! ## Branches on a text -/

/-- Go on if the argument equals a text, and to a label otherwise. -/
def equalsCode (text : String) (otherwise : Label) : List Instr :=
  [.var .aload 0, .ldc (.string text), .type .checkcast .object,
    .member .invokevirtual .stringEquals, .jump RelOp.eq.zeroBranch otherwise]

/-- Set a flag of the class and return a text. -/
def flagCode (flag text : String) : List Instr :=
  [.op .iconst1,
    .member .putstatic
      { owner := .self, name := flag, signature := ⟨[], .boolean⟩, isField := true },
    .ldc (.string text), .op (.ireturn + 4)]

def branchNamesCode : List Instr :=
  equalsCode "if" ⟨1⟩ ++ flagCode "hit" "if" ++ .label ⟨1⟩ ::
    (equalsCode "elseIf" ⟨3⟩ ++ flagCode "hit" "elseIf" ++ .label ⟨3⟩ ::
      (flagCode "miss" "else" ++ [.label ⟨2⟩, .label ⟨0⟩]))

section

variable {program rest after : List Instr} {store : Store} {world world' : World} {value : Value}

theorem flagCode_yields (flag text : String) :
    Yields program ⟨⟨.code (flagCode flag text ++ rest), [], store⟩, world⟩
      (.reference (.text text)) (world.setStatic (.self, flag) (.int 1)) :=
  .calculate calculation?_iconst1 rfl <| .touch rfl rfl <| .go rfl <| .finish rfl

theorem touch_checkcast (world : World) (text : String) (stack : List Value) :
    (Instr.type .checkcast .object).touch world (.reference (.text text) :: stack) =
      some (.reference (.text text) :: stack, world) := by
  have subtype : MemberTable.javaLang.isSubtype .string .object = true := by
    decide +kernel
  simp [Instr.touch, World.admits, World.classOf?, subtype]

theorem touch_stringEquals (world : World) (argument receiver : String) (stack : List Value) :
    (Instr.member .invokevirtual .stringEquals).touch world
        (.reference (.text argument) :: .reference (.text receiver) :: stack) =
      some (.int (if argument = receiver then 1 else 0) :: stack, world) := by
  have notPut : Opcode.invokevirtual ≠ .putstatic := by decide
  simp [Instr.touch, compareStrings, notPut]

theorem equalsCode_yields {text argument : String} {otherwise : Label}
    (holds : store 0 = some (.reference (.text argument)))
    (goes : destination program otherwise = .code after)
    (yields : Yields program ⟨⟨.code (if argument = text then rest else after), [], store⟩, world⟩
      value world') :
    Yields program ⟨⟨.code (equalsCode text otherwise ++ rest), [], store⟩, world⟩ value world' := by
  refine .load holds rfl rfl <| .go rfl <| .touch rfl (touch_checkcast world text _) <|
    .touch rfl (touch_stringEquals world text argument []) ?_
  by_cases same : argument = text
  · rw [if_pos same] at yields
    rw [if_pos same.symm]
    exact .branch_falls (RelOp.test?_zeroBranch _) rfl yields
  · rw [if_neg same] at yields
    rw [if_neg (Ne.symm same)]
    exact .branch_taken (RelOp.test?_zeroBranch _) rfl goes yields

/-- The branch that a text takes. -/
def branchOf (text : String) : String :=
  if text = "if" then "if" else if text = "elseIf" then "elseIf" else "else"

/-- The flag that is set in the branch of a text. -/
def flagOf (text : String) : String :=
  if text = "if" ∨ text = "elseIf" then "hit" else "miss"

theorem branchNames_yields (text : String) (world : World) :
    Yields branchNamesCode
      ⟨⟨.code branchNamesCode, [], .entry true .null [.reference (.text text)]⟩, world⟩
      (.reference (.text (branchOf text))) (world.setStatic (.self, flagOf text) (.int 1)) := by
  refine equalsCode_yields rfl rfl ?_
  by_cases first : text = "if"
  · have branch : branchOf text = "if" := by simp [branchOf, first]
    have flag : flagOf text = "hit" := by simp [flagOf, first]
    rw [if_pos first, branch, flag]
    exact flagCode_yields "hit" "if"
  · rw [if_neg first]
    refine equalsCode_yields rfl rfl ?_
    by_cases second : text = "elseIf"
    · have branch : branchOf text = "elseIf" := by simp [branchOf, second]
      have flag : flagOf text = "hit" := by simp [flagOf, second]
      rw [if_pos second, branch, flag]
      exact flagCode_yields "hit" "elseIf"
    · have branch : branchOf text = "else" := by simp [branchOf, first, second]
      have flag : flagOf text = "miss" := by simp [flagOf, first, second]
      rw [if_neg second, branch, flag]
      exact flagCode_yields "miss" "else"

end

/-! ## Assembled samples -/

/-- The sample is assembled to the method in the class, under the default configuration. -/
def IsAssembled (name className : String) (method : AssembledMethod) : Prop :=
  ∃ sample, find name = .ok sample ∧ sample.assemble className {} = .ok method

/-- What a sample is in one class, it is in all. -/
theorem exists_isAssembled (name : String) (code : List Instr) {sample : Sample}
    (found : find name = .ok sample)
    (demo : (sample.assemble "Demo" {}).toOption.map (fun m => (m.instrs, m.access.isStatic)) =
      some (code, true)) (className : String) :
    ∃ method, IsAssembled name className method ∧
      ∀ {world world' : World} {args : List Value} {value : Value},
        Yields code ⟨⟨.code code, [], .entry true .null args⟩, world⟩ value world' →
          method.ReturnsIn world args value world' := by
  cases assembled : sample.assemble "Demo" {} with
  | error e => simp [assembled, Except.toOption] at demo
  | ok method =>
      simp only [assembled, Except.toOption, Option.map_some, Option.some.injEq,
        Prod.mk.injEq] at demo
      obtain ⟨rfl, isStatic⟩ := demo
      refine ⟨method, ⟨sample, found, assemble_of_assemble assembled className⟩, ?_⟩
      intro world world' args value yields
      rw [← isStatic] at yields
      exact yields

/-- In every class and under the default configuration, the samples compute what they say:
the sum of an array modulo `2 ^ 32`, the absolute value of a number modulo `2 ^ 32`, the
smaller of two numbers, and the branch of a text, in which one flag is set and nothing else
changes.  They return nothing else. -/
theorem samples_compute (className : String) :
    (∃ sum, IsAssembled "sum" className sum ∧
      ∀ world number array, world.arrays number = some array → ∀ value world',
        sum.ReturnsIn world [.reference (.object number)] value world' ↔
          value = .int (Int32.ofInt (array.elements.map (·.toInt)).sum) ∧ world' = world) ∧
    (∃ abs, IsAssembled "abs" className abs ∧
      ∀ world v value world', abs.ReturnsIn world [.int v] value world' ↔
        value = .int (if 0 ≤ v.toInt then v else Int32.ofInt (-v.toInt)) ∧ world' = world) ∧
    (∃ least, IsAssembled "min" className least ∧
      ∀ world a b value world', least.ReturnsIn world [.int a, .int b] value world' ↔
        value = .int (Int32.ofInt (min a.toInt b.toInt)) ∧ world' = world) ∧
    (∃ branch, IsAssembled "branch_names" className branch ∧
      ∀ world text value world', branch.ReturnsIn world [.reference (.text text)] value world' ↔
        value = .reference (.text (branchOf text)) ∧
          world' = world.setStatic (.self, flagOf text) (.int 1)) := by
  obtain ⟨sum, sumAssembled, sumReturns⟩ :=
    exists_isAssembled "sum" arraySumCode rfl (by decide +kernel) className
  obtain ⟨abs, absAssembled, absReturns⟩ :=
    exists_isAssembled "abs" absoluteCode rfl (by decide +kernel) className
  obtain ⟨least, minAssembled, minReturns⟩ :=
    exists_isAssembled "min" minimumCode rfl (by decide +kernel) className
  obtain ⟨branch, branchAssembled, branchReturns⟩ :=
    exists_isAssembled "branch_names" branchNamesCode rfl (by decide +kernel) className
  refine ⟨⟨sum, sumAssembled, ?_⟩, ⟨abs, absAssembled, ?_⟩, ⟨least, minAssembled, ?_⟩,
    ⟨branch, branchAssembled, ?_⟩⟩
  · intro world number array known value world'
    exact (sumReturns (arraySum_yields known)).iff
  · intro world v value world'
    exact (absReturns (absolute_yields v world)).iff
  · intro world a b value world'
    exact (minReturns (minimum_yields a b world)).iff
  · intro world text value world'
    exact (branchReturns (branchNames_yields text world)).iff

def twoNumbers : IntArray :=
  ⟨[2147483647, 1], by decide⟩

/-- A world with one array. -/
def arrayWorld : World where
  arrays number := if number = 7 then some twoNumbers else none
  statics _ := .int 0

/-- The sum of a great and a small number is negative. -/
theorem twoNumbers_samples_compute :
    arrayWorld.arrays 7 = some twoNumbers ∧
    ∃ sum, IsAssembled "sum" "demo.Samples" sum ∧
      sum.ReturnsIn arrayWorld [.reference (.object 7)] (.int (-2147483648)) arrayWorld := by
  obtain ⟨⟨sum, assembled, returns⟩, -⟩ := samples_compute "demo.Samples"
  refine ⟨rfl, sum, assembled, ?_⟩
  exact (returns arrayWorld 7 twoNumbers rfl _ _).mpr ⟨by decide, rfl⟩

end Sample

end JvmAssembler
