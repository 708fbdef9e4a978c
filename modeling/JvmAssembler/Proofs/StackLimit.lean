import Mathlib
import JvmAssembler.Proofs.StackSoundness

/-!
# The stack limit of assembled methods

The limit recorded for a method is the greatest depth of the simulated stack.
Main statement: along every path through the code the operands stay within the
limit, except that they may take one slot more between the unboxing of a `Long`
and its step to `float`.  The exception is real.

Operands have to be value chains: the limit also fails where one operand changes the
variables for which a later one was probed.
-/

namespace JvmAssembler

/-- The stacks that paths through the code lead to. -/
inductive StackOn (code : List Instr) : Nat → List Category → Prop where
  | entry : StackOn code 0 []
  | step {i j : Nat} {instr : Instr} {stack after : List Category} : StackOn code i stack →
      code[i]? = some instr → Edge code i j → instr.after? stack = some after →
      StackOn code j after

section

variable {result : JType} {shapes : Label → Option (List Category)} {code : List Instr}
variable {exit : Option (List Category)} {i limit : Nat} {stack : List Category}

/-- Paths lead to the stacks of the typing that the flow gives. -/
theorem stackAt_of_stackOn (flows : flow result shapes (some []) code = some exit)
    (path : StackOn code i stack) : stackAt result shapes code i = some stack := by
  induction path with
  | entry => exact stackAt_zero flows
  | step _ found edge steps ih =>
      obtain ⟨after, steps', there⟩ := stackAt_of_edge flows found ih edge
      rw [there, ← steps, steps']

/-- The stack at a label is the one after it. -/
theorem stackBefore_succ_of_label {label : Label}
    (flows : flow result shapes (some []) code = some exit) (found : code[i]? = some (.label label))
    (here : stackAt result shapes code i = some stack) :
    stackBefore result shapes code (i + 1) = some stack := by
  obtain ⟨after, steps, -, falls, -⟩ := after?_stackAt flows found here
  have stays : (Instr.label label).after? stack = some stack :=
    Instr.after?_append (show (Instr.label label).effect? = some ⟨[], []⟩ from rfl) stack
  rw [falls rfl, ← steps, stays]

theorem stackAt_eq_stackBefore (notLabel : ∀ label, code[i]? ≠ some (.label label)) :
    stackAt result shapes code i = stackBefore result shapes code i := by
  unfold stackAt
  split
  · rename_i label found
    exact absurd found (notLabel label)
  · rfl

/-- A place that is no label is only reached from the instruction before it. -/
theorem StackOn.previous (path : StackOn code (i + 1) stack)
    (notLabel : ∀ label, code[i + 1]? ≠ some (.label label)) :
    ∃ held instr, StackOn code i held ∧ code[i]? = some instr := by
  generalize same : i + 1 = place at path notLabel
  cases path with
  | entry => contradiction
  | step before found edge steps =>
      cases edge with
      | next =>
          obtain rfl := Nat.succ.inj same
          exact ⟨_, _, before, found⟩
      | jump _ isLabel => exact absurd isLabel (notLabel _)

/-- Where the slots of no stack overflow, they are counted right. -/
theorem StackOn.counted (flows : flow result shapes (some []) code = some exit)
    (small : ∀ j held, StackOn code j held → slots held ≤ 65535) (path : StackOn code i stack)
    (notLabel : ∀ label, code[i]? ≠ some (.label label)) :
    SlotsCounted result shapes (some []) (code.take i) stack where
  here := small i stack path
  previous init instr held split plain below := by
    obtain ⟨k, rfl⟩ : ∃ k, i = k + 1 := by
      cases i with
      | zero => simp at split
      | succ k => exact ⟨k, rfl⟩
    obtain ⟨held', instr', before, found⟩ := path.previous notLabel
    rw [List.take_add_one, found] at split
    obtain ⟨rfl, same⟩ := List.append_inj' split rfl
    obtain rfl : instr' = instr := by simpa using same
    have unlabelled : ∀ label, code[k]? ≠ some (.label label) := by
      rintro label isLabel
      rw [found] at isLabel
      obtain rfl := Option.some.inj isLabel
      contradiction
    have there := stackAt_of_stackOn flows before
    rw [stackAt_eq_stackBefore unlabelled] at there
    rw [flow_take flows k, there] at below
    cases below
    exact small k _ before

theorem slots_stackAt_le (flows : flow result shapes (some []) code = some exit)
    (within : StaysWithin limit result shapes (some []) code)
    (small : ∀ j held, StackOn code j held → slots held ≤ 65535) (path : StackOn code i stack) :
    slots stack ≤ limit ∨
      UnboxedLong (code.take i) (code.drop i) ∧ slots stack = limit + 1 := by
  have here := stackAt_of_stackOn flows path
  have before {k : Nat} (left : stackBefore result shapes code k = some stack) :=
    within (code.take k) (code.drop k) stack (List.take_append_drop k code).symm
      (by rw [flow_take flows k, left])
  by_cases isLabel : ∃ label, code[i]? = some (.label label)
  · obtain ⟨label, found⟩ := isLabel
    have counted : SlotsCounted result shapes (some []) (code.take (i + 1)) stack := by
      refine ⟨small i stack path, fun init instr held split plain _ => ?_⟩
      rw [List.take_add_one, found] at split
      obtain rfl : .label label = instr := by simpa using (List.append_inj' split rfl).2
      contradiction
    rcases before (stackBefore_succ_of_label flows found here) counted with
      low | ⟨⟨unboxed, -⟩, -⟩
    · exact .inl low
    · simp [List.take_add_one, found, Conversion.unboxInstr] at unboxed
  · have notLabel : ∀ label, code[i]? ≠ some (.label label) := fun label found =>
      isLabel ⟨label, found⟩
    rw [stackAt_eq_stackBefore notLabel] at here
    by_cases low : slots stack ≤ limit
    · exact .inl low
    · rcases before here (path.counted flows small notLabel) with low' | ⟨unboxed, high⟩
      · exact absurd low' low
      · exact .inr ⟨unboxed, by omega⟩

end

/-- The recorded limit bounds the stack: along every path through the code of a
method whose operands are value chains and where 16 bits can count the slots, every
instruction finds its operands, and they take no more slots than the limit, but for
one more between the unboxing of a `Long` and its step to `float`. -/
theorem MethodSpec.slots_le_maxStack_of_assemble (cls : ClassContext) (spec : MethodSpec)
    (method : AssembledMethod)
    (chains : ∀ operand ∈ operandsIn spec.body, operand.isValueChain = true)
    (assembled : spec.assemble cls = .ok method)
    (counted : ∀ j held, StackOn method.instrs j held → slots held ≤ 65535)
    (i : Nat) (stack : List Category) (path : StackOn method.instrs i stack) :
    (∀ instr, method.instrs[i]? = some instr → (instr.after? stack).isSome = true) ∧
      (slots stack ≤ method.maxStack.toNat ∨
        UnboxedLong (method.instrs.take i) (method.instrs.drop i) ∧
          slots stack = method.maxStack.toNat + 1) := by
  obtain ⟨limits, s, ran, rfl⟩ := exists_method_of_assemble assembled
  obtain ⟨bound, closed, passes, view, sized, codeEq, limitEq⟩ := Gen.method_passes chains ran
  have settled := Gen.settled_recorded bound closed
  have flows := passes.flows _ settled
  have within := passes.below sized _ settled
  rw [view, ← codeEq] at flows within
  rw [← limitEq] at within
  constructor
  · intro instr found
    obtain ⟨after, steps, -⟩ := after?_stackAt flows found (stackAt_of_stackOn flows path)
    simp [steps]
  · exact slots_stackAt_le flows within counted path

namespace Sample

open Fragment

/-- `return value;` where a `Long` is returned as a `float`. -/
def longAsFloat : MethodSpec where
  name := "asFloat"
  access := .publicStatic
  params := [("value", .wrapperOf .long)]
  result := .float
  body := loadNamed "value" ++ [.returnValue]

/-- The instructions and limits of `longAsFloat`. -/
def longAsFloatMethod : AssembledMethod :=
  longAsFloat.assembled (classContext "Demo" {})
    [.var .aload 0, Conversion.unboxInstr .long, .op .l2f, .op (.returnOf .float)] ⟨1, 1⟩

theorem longAsFloat_slots_le_maxStack :
    (∀ operand ∈ operandsIn longAsFloat.body, operand.isValueChain = true) ∧
      longAsFloat.assemble (classContext "Demo" {}) = .ok longAsFloatMethod ∧
      (∀ j held, StackOn longAsFloatMethod.instrs j held → slots held ≤ 65535) ∧
      ∀ i stack, StackOn longAsFloatMethod.instrs i stack →
        (∀ instr, longAsFloatMethod.instrs[i]? = some instr → (instr.after? stack).isSome = true) ∧
          (slots stack ≤ longAsFloatMethod.maxStack.toNat ∨
            UnboxedLong (longAsFloatMethod.instrs.take i) (longAsFloatMethod.instrs.drop i) ∧
              slots stack = longAsFloatMethod.maxStack.toNat + 1) := by
  have chains : ∀ operand ∈ operandsIn longAsFloat.body, operand.isValueChain = true := by
    decide +kernel
  have assembled : longAsFloat.assemble (classContext "Demo" {}) = .ok longAsFloatMethod := by
    decide +kernel
  have counted : ∀ j held, StackOn longAsFloatMethod.instrs j held → slots held ≤ 65535 := by
    intro j held path
    have flows : flow .float (fun _ => none) (some []) longAsFloatMethod.instrs = some none := rfl
    have here := stackAt_of_stackOn flows path
    rcases j with - | - | - | - | j
    iterate 4
      cases here
      decide
    simp only [stackAt, stackBefore] at here
    rw [List.take_of_length_le (by simp [longAsFloatMethod, MethodSpec.assembled]), flows] at here
    cases here
  exact ⟨chains, assembled, counted,
    MethodSpec.slots_le_maxStack_of_assemble _ _ _ chains assembled counted⟩

/-- The unboxed value takes two slots, where the limit is one. -/
theorem longAsFloat_exceeds_maxStack :
    longAsFloat.assemble (classContext "Demo" {}) = .ok longAsFloatMethod ∧
      ∃ stack, StackOn longAsFloatMethod.instrs 2 stack ∧
        longAsFloatMethod.maxStack.toNat < slots stack := by
  refine ⟨by decide +kernel, [.long], ?_, by decide⟩
  have loaded : StackOn longAsFloatMethod.instrs 1 [.reference] :=
    .step .entry rfl (.next rfl rfl) rfl
  exact .step loaded rfl (.next rfl rfl) rfl

/-- `if (x == "a")`, whose left operand declares a `long` named `x` before the right
operand loads it. -/
def redeclared : MethodSpec where
  name := "f"
  access := .publicStatic
  params := [("x", .string)]
  result := .void
  body :=
    [.ifThen (.compare .eq (.declare "x" .long [.constant (.long 1)] :: [.constant (.string "a")])
      (loadNamed "x") false) [], .returnVoid]

-- No operand pops what is below it, and yet the branch on references finds a `long`.
example :
    ∃ code, (redeclared.assemble (classContext "Demo" {})).map (·.instrs.take 5) = .ok code ∧
      afterAll? (code.take 4) [] = some [.long, .reference] ∧ afterAll? code [] = none :=
  ⟨[.op (.lconst0 + 1), .var (.storeOf .long) 1, .ldc (.string "a"), .var (.loadOf .long) 1,
    .jump .ifAcmpne ⟨0⟩], by decide +kernel, rfl, rfl⟩

end Sample

end JvmAssembler
