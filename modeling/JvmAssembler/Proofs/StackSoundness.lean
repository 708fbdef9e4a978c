import Mathlib
import JvmAssembler.Sample
import JvmAssembler.Proofs.StatementFlow

/-!
# Assembled methods have typed stacks

The control-flow graph of an instruction list has an edge from an instruction to
the next one, where control can continue, and from a jump to its label.  A stack
typing gives a stack of categories to every position that the entry reaches, so
that every instruction there finds its operands, and every edge leads to the
stack that the instruction leaves.  Main statement: a method whose operands are
value chains, if it is assembled at all, has a stack typing.
-/

namespace JvmAssembler

/-! ## Control flow -/

/-- The edges of the control-flow graph between positions of instructions. -/
inductive Edge (code : List Instr) : Nat → Nat → Prop where
  | next {i : Nat} {instr : Instr} : code[i]? = some instr → instr.continues = true →
      Edge code i (i + 1)
  | jump {i j : Nat} {op : Opcode} {target : Label} : code[i]? = some (.jump op target) →
      code[j]? = some (.label target) → Edge code i j

/-- The positions that the entry reaches. -/
def Reachable (code : List Instr) : Nat → Prop :=
  Relation.ReflTransGen (Edge code) 0

/-- Stacks for the reachable positions of a method that returns `result`. -/
structure StackTyping (result : JType) (code : List Instr) (stackOf : Nat → List Category) :
    Prop where
  entry : stackOf 0 = []
  operands : ∀ i instr, Reachable code i → code[i]? = some instr →
    (instr.after? (stackOf i)).isSome = true
  edges : ∀ i j instr, Reachable code i → code[i]? = some instr → Edge code i j →
    instr.after? (stackOf i) = some (stackOf j)
  returns : ∀ i instr, Reachable code i → code[i]? = some instr → instr.returnsAs result

/-! ## From flow to typing -/

section

variable {result : JType} {shapes : Label → Option (List Category)} {code : List Instr}
variable {exit : Option (List Category)} {i : Nat} {instr : Instr} {stack : List Category}

/-- The stack with which the instruction before a position is left. -/
def stackBefore (result : JType) (shapes : Label → Option (List Category)) (code : List Instr)
    (i : Nat) : Option (List Category) :=
  (flow result shapes (some []) (code.take i)).join

/-- The stack at a position: at a label, the stack of the label. -/
def stackAt (result : JType) (shapes : Label → Option (List Category)) (code : List Instr)
    (i : Nat) : Option (List Category) :=
  match code[i]? with
  | some (.label label) => shapes label
  | _ => stackBefore result shapes code i

theorem flow_take (flows : flow result shapes (some []) code = some exit) (i : Nat) :
    flow result shapes (some []) (code.take i) = some (stackBefore result shapes code i) := by
  unfold stackBefore
  cases first : flow result shapes (some []) (code.take i) with
  | some before => rfl
  | none =>
      rw [← List.take_append_drop i code, flow_append, first] at flows
      contradiction

theorem flowStep_at (flows : flow result shapes (some []) code = some exit)
    (found : code[i]? = some instr) :
    flowStep result shapes (stackBefore result shapes code i) instr =
      some (stackBefore result shapes code (i + 1)) := by
  have upTo := flow_take flows (i + 1)
  rw [List.take_add_one, found, flow_append, flow_take flows i] at upTo
  simpa [flow] using upTo

/-- Where the instruction before can be left, its stack is the one at the
position. -/
theorem stackAt_of_stackBefore (flows : flow result shapes (some []) code = some exit)
    (before : stackBefore result shapes code i = some stack) :
    stackAt result shapes code i = some stack := by
  unfold stackAt
  split
  · rename_i label found
    have step := flowStep_at flows found
    rw [before] at step
    by_contra differs
    simp [flowStep, differs] at step
  · exact before

theorem flowStep_of_notLabel (notLabel : ∀ label, instr ≠ .label label) :
    flowStep result shapes (some stack) instr =
      (instr.after? stack).bind fun after =>
        if instr.returnsAs result ∧ instr.agreesAt shapes after then
          some (if instr.continues then some after else none)
        else none := by
  cases instr with
  | label label => exact absurd rfl (notLabel label)
  | _ => rfl

/-- What an instruction at a position with a stack does. -/
theorem after?_stackAt (flows : flow result shapes (some []) code = some exit)
    (found : code[i]? = some instr) (here : stackAt result shapes code i = some stack) :
    ∃ after, instr.after? stack = some after ∧ instr.returnsAs result ∧
      (instr.continues = true → stackBefore result shapes code (i + 1) = some after) ∧
      ∀ op target, instr = .jump op target → shapes target = some after := by
  have step := flowStep_at flows found
  by_cases isLabel : ∃ label, instr = .label label
  · obtain ⟨label, rfl⟩ := isLabel
    have known : shapes label = some stack := by simpa [stackAt, found] using here
    have stays : (Instr.label label).after? stack = some stack :=
      Instr.after?_append (show (Instr.label label).effect? = some ⟨[], []⟩ from rfl) stack
    refine ⟨stack, stays, fun c returned => ?_, fun _ => ?_, by simp⟩
    · simp [Instr.returned?] at returned
    · cases before : stackBefore result shapes code i with
      | none => simpa [before, flowStep, known, eq_comm] using step
      | some left =>
          have same := (stackAt_of_stackBefore flows before).symm.trans here
          simpa [before, flowStep, known, same, eq_comm] using step
  · have before : stackBefore result shapes code i = some stack := by
      unfold stackAt at here
      split at here
      · rename_i label isHere
        exact absurd ⟨label, Option.some.inj (found.symm.trans isHere)⟩ isLabel
      · exact here
    rw [before, flowStep_of_notLabel fun label same => isLabel ⟨label, same⟩] at step
    obtain ⟨after, steps, step⟩ := Option.bind_eq_some_iff.mp step
    split at step
    · rename_i fits
      refine ⟨after, steps, fits.1, fun continues => ?_, ?_⟩
      · simpa [continues, eq_comm] using step
      · rintro op target rfl
        exact fits.2
    · contradiction

/-- An edge leads to the stack that the instruction leaves. -/
theorem stackAt_of_edge {j : Nat} (flows : flow result shapes (some []) code = some exit)
    (found : code[i]? = some instr) (here : stackAt result shapes code i = some stack)
    (edge : Edge code i j) :
    ∃ after, instr.after? stack = some after ∧ stackAt result shapes code j = some after := by
  obtain ⟨after, steps, -, falls, jumps⟩ := after?_stackAt flows found here
  refine ⟨after, steps, ?_⟩
  cases edge with
  | next isHere continues =>
      obtain rfl := Option.some.inj (found.symm.trans isHere)
      exact stackAt_of_stackBefore flows (falls continues)
  | jump isHere placed =>
      obtain rfl := Option.some.inj (found.symm.trans isHere)
      simpa [stackAt, placed] using jumps _ _ rfl

theorem stackAt_zero (flows : flow result shapes (some []) code = some exit) :
    stackAt result shapes code 0 = some [] :=
  stackAt_of_stackBefore flows rfl

theorem Edge.exists_instr {j : Nat} (edge : Edge code i j) : ∃ instr, code[i]? = some instr := by
  cases edge with
  | next found _ => exact ⟨_, found⟩
  | jump found _ => exact ⟨_, found⟩

theorem exists_stackAt_of_reachable (flows : flow result shapes (some []) code = some exit)
    (reachable : Reachable code i) : ∃ stack, stackAt result shapes code i = some stack := by
  induction reachable with
  | refl => exact ⟨[], stackAt_zero flows⟩
  | tail _ edge ih =>
      obtain ⟨stack, here⟩ := ih
      obtain ⟨instr, found⟩ := edge.exists_instr
      obtain ⟨after, -, there⟩ := stackAt_of_edge flows found here edge
      exact ⟨after, there⟩

/-- A list along which the flow is defined has a stack typing. -/
theorem stackTyping_of_flow (flows : flow result shapes (some []) code = some exit) :
    StackTyping result code fun i => (stackAt result shapes code i).getD [] where
  entry := by simp [stackAt_zero flows]
  operands := by
    intro i instr reachable found
    obtain ⟨stack, here⟩ := exists_stackAt_of_reachable flows reachable
    obtain ⟨after, steps, -⟩ := after?_stackAt flows found here
    simp [here, steps]
  edges := by
    intro i j instr reachable found edge
    obtain ⟨stack, here⟩ := exists_stackAt_of_reachable flows reachable
    obtain ⟨after, steps, there⟩ := stackAt_of_edge flows found here edge
    simp [here, there, steps]
  returns := by
    intro i instr reachable found
    obtain ⟨stack, here⟩ := exists_stackAt_of_reachable flows reachable
    obtain ⟨after, -, returns, -⟩ := after?_stackAt flows found here
    exact returns

end

/-! ## Methods -/

/-- An assembled method holds what a run of the generator writes. -/
theorem MethodSpec.exists_method_of_assemble {cls : ClassContext} {spec : MethodSpec}
    {method : AssembledMethod} (assembled : spec.assemble cls = .ok method) :
    ∃ limits s, Gen.method (spec.context cls) spec {} = .ok limits s ∧
      spec.assembled cls s.output.instrs.toList limits = method := by
  unfold assemble MethodSpec.run at assembled
  cases ran : Gen.method (spec.context cls) spec {} with
  | ok limits s => exact ⟨limits, s, rfl, by simpa [ran] using assembled⟩
  | error e s => simp [ran] at assembled

/-- The variables that a method begins with, in the order of their slots. -/
def MethodSpec.bindings (spec : MethodSpec) : List (String × JType) :=
  if spec.isStatic then spec.params else ("this", .self) :: spec.params

namespace Gen

variable {result : JType} {ctx : Context} {spec : MethodSpec} {s t : State}

/-- The parts of the run of a method. -/
theorem method_eq_ok {limits : Limits} (run : method ctx spec s = .ok limits t) :
    ∃ log bound generated closed, bindParams spec.bindings { s with log } = .ok () bound ∧
      spec.body.code ctx [] bound = .ok () generated ∧
      whenAlive (close ctx spec) generated = .ok () closed ∧
      t.output = closed.output ∧ limits.maxStack = closed.frame.maxStack ∧
      limits.maxLocals = closed.frame.maxLocals := by
  unfold method at run
  obtain ⟨_, s₁, noted, run⟩ := bind_eq_ok.mp run
  cases noted
  obtain ⟨bound, binds, run⟩ : ∃ bound,
      bindParams spec.bindings { s with log := s.log.push (.assembling spec.name spec.signature) } =
        .ok () bound ∧ _ := by
    unfold MethodSpec.bindings
    cases isStatic : spec.isStatic with
    | true =>
        simp only [isStatic] at run
        obtain ⟨_, bound, binds, run⟩ := bind_eq_ok.mp run
        exact ⟨bound, binds, run⟩
    | false =>
        simp only [isStatic] at run
        obtain ⟨_, u, receiver, run⟩ := bind_eq_ok.mp run
        obtain ⟨slot, v, added, returned⟩ := bind_eq_ok.mp receiver
        obtain ⟨-, rfl⟩ := pure_eq_ok.mp returned
        obtain ⟨_, bound, binds, run⟩ := bind_eq_ok.mp run
        exact ⟨bound, bind_eq_ok.mpr ⟨slot, v, added, binds⟩, run⟩
  obtain ⟨_, generated, generates, run⟩ := bind_eq_ok.mp run
  obtain ⟨_, closed, closes, run⟩ := bind_eq_ok.mp run
  obtain ⟨_, _, got, run⟩ := bind_eq_ok.mp run
  obtain ⟨rfl, rfl⟩ := get_eq_ok.mp got
  obtain ⟨_, _, noted, returned⟩ := bind_eq_ok.mp run
  cases noted
  obtain ⟨rfl, rfl⟩ := pure_eq_ok.mp returned
  exact ⟨_, bound, generated, closed, binds, generates, closes, rfl, rfl, rfl⟩

/-- Binding parameters concerns the locals only. -/
theorem bindParams_keeps {params : List (String × JType)} (run : bindParams params s = .ok () t) :
    t.output = s.output ∧ t.probed = s.probed ∧ t.frame.shapes = s.frame.shapes ∧
      t.view = s.view ∧ s.frame.Grows t.frame := by
  induction params generalizing s with
  | nil =>
      obtain ⟨-, rfl⟩ := pure_eq_ok.mp run
      exact ⟨rfl, rfl, rfl, rfl, .refl _⟩
  | cons param rest ih =>
      obtain ⟨slot, u, added, others⟩ := bind_eq_ok.mp run
      obtain ⟨frame, ran, rfl⟩ := onFrame_eq_ok.mp added
      obtain ⟨stackEq, aliveEq, shapesEq, adding⟩ := addLocal_keeps ran
      obtain ⟨output, probed, shapes, view, grows⟩ := ih others
      refine ⟨output, probed, shapes.trans shapesEq, view.trans ?_, adding.trans grows⟩
      simp [State.view, stackEq, aliveEq]

/-- A body is closed by a return, if the method returns nothing and no operands are
left. -/
theorem close_eq_ok (run : close ctx spec s = .ok () t) :
    spec.result.isVoid = true ∧ s.frame.size = 0 ∧ emitOp ctx .returnVoid s = .ok () t := by
  unfold close at run
  obtain ⟨returnsNothing, run⟩ := check_eq_ok.mp run
  obtain ⟨_, _, got, run⟩ := bind_eq_ok.mp run
  obtain ⟨rfl, rfl⟩ := get_eq_ok.mp got
  obtain ⟨noneLeft, emitted⟩ := check_eq_ok.mp run
  exact ⟨by simp_all, not_not.mp noneLeft, emitted⟩

theorem close_passes (alive : s.frame.alive = true) (run : close ctx spec s = .ok () t) :
    Passes result s.old [] s t :=
  emit_returnVoid_passes alive (close_eq_ok run).2.2

/-- A method is generated from the empty stack on, within its stack limit. -/
theorem method_passes {limits : Limits}
    (chains : ∀ operand ∈ operandsIn spec.body, operand.isValueChain = true)
    (run : method ctx spec {} = .ok limits t) :
    ∃ bound closed, Passes ctx.result bound.old [] bound closed ∧ bound.view = some [] ∧
      bound.frame.Sized ∧ t.code = written bound closed ∧
      limits.maxStack = closed.frame.maxStack := by
  obtain ⟨log, bound, generated, closed, binds, generates, closes, outputEq, limitEq, -⟩ :=
    method_eq_ok run
  obtain ⟨output, probed, shapes, view, grows⟩ := bindParams_keeps binds
  have ready : Open bound [] 0 := by
    refine ⟨⟨?_, (bindParams_keepsMatched _).of_ok binds rfl⟩, ?_⟩
    · simp [Unprobed, probed]
    · simp [State.ShapesBelow, State.shape?, shapes]
  have body := codeFrom_passes ctx [] 0 spec.body chains ready generates
  have closing : Passes ctx.result generated.old [] generated closed :=
    Passes.of_whenAlive (fun alive ran => close_passes alive ran) closes
  have whole := body.andThen closing
  have sized : bound.frame.Sized := grows.sized .initial
  refine ⟨bound, closed, whole, view, sized, ?_, limitEq⟩
  have begins : bound.code = [] := by simp [State.code, output]
  have grown := whole.code_eq
  rw [begins, List.nil_append] at grown
  rw [State.code, outputEq]
  exact grown

/-- The recorded shapes are stacks for the labels of a finished run. -/
theorem settled_recorded (s t : State) :
    t.Settled s.old fun label => (t.shape? label).map (List.map JType.category) :=
  ⟨fun label shape recorded => by simp [recorded], fun label _ _ none => by simp [none]⟩

theorem method_flows {limits : Limits}
    (chains : ∀ operand ∈ operandsIn spec.body, operand.isValueChain = true)
    (run : method ctx spec {} = .ok limits t) :
    ∃ shapes exit, flow ctx.result shapes (some []) t.code = some exit := by
  obtain ⟨bound, closed, passes, view, -, codeEq, -⟩ := method_passes chains run
  have flows := passes.flows _ (settled_recorded bound closed)
  rw [view, ← codeEq] at flows
  exact ⟨_, _, flows⟩

end Gen

/-- Emitted code is stack-type sound: a method in whose body every operand, at
any depth, is a value chain has a stack typing, if it can be assembled. -/
theorem MethodSpec.exists_stackTyping_of_assemble (cls : ClassContext) (spec : MethodSpec)
    (method : AssembledMethod)
    (chains : ∀ operand ∈ operandsIn spec.body, operand.isValueChain = true)
    (assembled : spec.assemble cls = .ok method) :
    ∃ stackOf, StackTyping spec.result method.instrs stackOf := by
  obtain ⟨limits, s, ran, rfl⟩ := exists_method_of_assemble assembled
  obtain ⟨shapes, exit, flows⟩ := Gen.method_flows chains ran
  exact ⟨_, stackTyping_of_flow flows⟩

/-- The sum over an array has operands at several depths and a loop. -/
theorem Sample.exists_stackTyping_arraySum :
    (∀ operand ∈ operandsIn arraySum.body, operand.isValueChain = true) ∧
      ∃ method, arraySum.assemble (classContext "Demo" {}) = .ok method ∧
        ∃ stackOf, StackTyping arraySum.result method.instrs stackOf := by
  have chains : ∀ operand ∈ operandsIn arraySum.body, operand.isValueChain = true := by
    decide +kernel
  have succeeds : (arraySum.assemble (classContext "Demo" {})).isOk = true := by decide +kernel
  refine ⟨chains, ?_⟩
  cases assembled : arraySum.assemble (classContext "Demo" {}) with
  | error e => simp [assembled, Except.isOk, Except.toBool] at succeeds
  | ok method =>
      exact ⟨method, rfl, MethodSpec.exists_stackTyping_of_assemble (classContext "Demo" {})
        arraySum method chains assembled⟩

end JvmAssembler
