import Mathlib
import JvmAssembler.Proofs.ControlFlow
import JvmAssembler.Proofs.ProbeMemory
import JvmAssembler.Proofs.StatementRun

/-!
# What the code of programs does

The code of each statement performs it, by recursion on the statements of a
program.  A method is entered with its arguments in the slots of its parameters,
and the end of its body cannot be reached, since it has a result.

Main statement: on arguments in range, an assembled integer program returns and
diverges exactly as evaluation says.
-/

namespace JvmAssembler

open Gen

/-! ## Statements -/

/-- The variables that statements declare, the last one first. -/
def declaredIn : List IntStmt → List (String × IntType)
  | [] => []
  | stmt :: rest => declaredIn rest ++ stmt.declared

theorem hidesReceiver_append (inner outer : List (String × IntType)) :
    hidesReceiver (inner ++ outer) = (hidesReceiver outer || hidesReceiver inner) := by
  simp [hidesReceiver, Bool.or_comm]

theorem Spares.of_hidden {isStatic : Bool} {scope : List (String × IntType)} {names : List String}
    (spared : isStatic = true ∨ (hidesReceiver scope || !names.contains receiverName) = true) :
    Spares isStatic scope names := by
  simpa [Spares] using spared

theorem IntStmt.ops_ne_nil (stmt : IntStmt) : stmt.ops ≠ [] := by
  cases stmt <;> simp [IntStmt.ops]

section

variable {ctx : Context} {result : IntType} {bound : Nat}
variable {scope : List (String × IntType)} {scopes : List Nat} {s t : State}

theorem Gen.alive_of_codeFrom {pos : Position} {index : Nat} {ops : List Op}
    (run : codeFrom ctx pos index ops s = .ok () t) (notEmpty : ops ≠ []) :
    s.frame.alive = true := by
  cases ops with
  | nil => contradiction
  | cons op rest =>
      obtain ⟨_, u, ran, -⟩ := bind_eq_ok.mp run
      exact (operation_eq_ok.mp ran).1

theorem Performs.refl (laid : Laid ctx.isStatic scope scopes s) :
    Performs ctx result bound scope scope scopes (fun env => some (.next env)) s s where
  toWrites := Writes.refl s
  laid := laid
  realizes env store goesOn := by
    have nothing : written s s = [] := by simp [written]
    refine ⟨.next env, rfl, store, goesOn, ?_⟩
    rw [nothing]
    exact fun _ _ _ _ => ⟨[], _, .refl _, le_rfl, rfl⟩

/-- A fragment of one operation. -/
theorem Performs.of_operation {scope' : List (String × IntType)}
    {exec : IntEnv → Option IntOutcome} {pos : Position} {index : Nat} {op : Op}
    (laid : Laid ctx.isStatic scope scopes s) (run : codeFrom ctx pos index [op] s = .ok () t)
    (performs : ∀ ⦃s t⦄, s.frame.alive = true → Laid ctx.isStatic scope scopes s →
      op.body ctx (index :: pos) s = .ok () t →
      Performs ctx result bound scope scope' scopes exec s t) :
    Performs ctx result bound scope scope' scopes exec s t := by
  obtain ⟨alive, u, ran, rfl⟩ := codeFrom_singleton_eq_ok.mp run
  have performs := performs (s := { s with depth := s.depth + 1 }) alive (laid.deeper _) ran
  exact performs.operation _

theorem IntCond.decidedIn (fresh : ctx.probing = .fresh) (pos : Position) (cond : IntCond)
    (spares : Spares ctx.isStatic scope cond.loads) :
    DecidedIn ctx scope scopes (cond.cond.branch ctx pos)
      fun env => cond.eval ctx.config.narrowReinterpretation env := by
  rintro env store ⟨rfl, stored⟩
  exact cond.branch_deciding ⟨fresh, stored⟩ pos scopes spares

end

section

variable {ctx : Context} {result : IntType}

mutual

/-- The code of a statement performs it. -/
theorem IntStmt.ops_performs (fresh : ctx.probing = .fresh) (isResult : ctx.result = result.type)
    (bound : Nat) (pos : Position) (index : Nat) (scope : List (String × IntType))
    (scopes : List Nat) :
    (stmt : IntStmt) →
      ctx.isStatic = true ∨ stmt.sparesReceiver (hidesReceiver scope) = true →
      ∀ ⦃s t⦄, Laid ctx.isStatic scope scopes s →
        codeFrom ctx pos index stmt.ops s = .ok () t →
        Performs ctx result bound scope (stmt.declared ++ scope) scopes
          (fun env => stmt.exec ctx.config.narrowReinterpretation result bound env) s t
  | .declare name ty init, spared => by
      intro s t laid run
      simp only [IntStmt.exec]
      exact Performs.of_operation laid run fun _ _ alive laid ran =>
        declare_performs fresh (.of_hidden spared) alive laid ran
  | .store name value, spared => by
      intro s t laid run
      simp only [IntStmt.exec]
      exact Performs.of_operation laid run fun _ _ alive laid ran =>
        store_performs fresh (.of_hidden spared) alive laid ran
  | .increment name step, spared => by
      intro s t laid run
      have spares : Spares ctx.isStatic scope [name] := by
        simpa [Spares, IntStmt.sparesReceiver, eq_comm (a := receiverName)] using spared
      simp only [IntStmt.exec]
      exact Performs.of_operation laid run fun _ _ alive laid ran =>
        increment_performs spares alive laid ran
  | .returnValue value, spared => by
      intro s t laid run
      simp only [IntStmt.exec]
      exact returnValue_performs fresh isResult (.of_hidden spared)
        (alive_of_codeFrom run (IntStmt.ops_ne_nil (.returnValue value))) laid run
  | .block body, spared => by
      intro s t laid run
      have performed : PerformedIn ctx result bound scope (declaredIn body) scopes _ _ :=
        fun s t _ laid run => opsOf_performs fresh isResult bound (0 :: index :: pos) 0 scope _ body
          spared laid run
      simp only [IntStmt.exec]
      exact Performs.of_operation laid run fun _ _ alive laid ran =>
        performed.inScope alive laid ran
  | .ifThen cond body, spared => by
      intro s t laid run
      simp only [IntStmt.sparesReceiver, Bool.and_eq_true] at spared
      have decided : DecidedIn ctx scope scopes _ _ := cond.decidedIn fresh (0 :: index :: pos)
        (.of_hidden (spared.imp_right And.left))
      have performed : PerformedIn ctx result bound scope (declaredIn body) scopes _ _ :=
        fun s t _ laid run => opsOf_performs fresh isResult bound (1 :: index :: pos) 0 scope _ body
          (spared.imp_right And.right) laid run
      simp only [IntStmt.exec]
      exact Performs.of_operation laid run fun _ _ alive laid ran =>
        ifThen_performs decided performed alive laid ran
  | .ifElse cond body otherwise, spared => by
      intro s t laid run
      simp only [IntStmt.sparesReceiver, Bool.and_eq_true] at spared
      have decided : DecidedIn ctx scope scopes _ _ := cond.decidedIn fresh (0 :: index :: pos)
        (.of_hidden (spared.imp_right fun both => both.1.1))
      have performed : PerformedIn ctx result bound scope (declaredIn body) scopes _ _ :=
        fun s t _ laid run => opsOf_performs fresh isResult bound (1 :: index :: pos) 0 scope _ body
          (spared.imp_right fun both => both.1.2) laid run
      have performedElse : PerformedIn ctx result bound scope (declaredIn otherwise) scopes _ _ :=
        fun s t _ laid run => opsOf_performs fresh isResult bound (2 :: index :: pos) 0 scope _
          otherwise (spared.imp_right And.right) laid run
      simp only [IntStmt.exec]
      exact Performs.of_operation laid run fun _ _ alive laid ran =>
        ifElse_performs decided performed performedElse alive laid ran
  | .whileLoop cond body, spared => by
      intro s t laid run
      simp only [IntStmt.sparesReceiver, Bool.and_eq_true] at spared
      have decided : DecidedIn ctx scope scopes _ _ := cond.decidedIn fresh (0 :: index :: pos)
        (.of_hidden (spared.imp_right And.left))
      have performed : PerformedIn ctx result bound scope (declaredIn body) scopes _ _ :=
        fun s t _ laid run => opsOf_performs fresh isResult bound (1 :: index :: pos) 0 scope _ body
          (spared.imp_right And.right) laid run
      simp only [IntStmt.exec]
      exact Performs.of_operation laid run fun _ _ alive laid ran =>
        whileLoop_performs decided performed alive laid ran

theorem opsOf_performs (fresh : ctx.probing = .fresh) (isResult : ctx.result = result.type)
    (bound : Nat) (pos : Position) (index : Nat) (scope : List (String × IntType))
    (scopes : List Nat) :
    (stmts : List IntStmt) →
      ctx.isStatic = true ∨ bodySparesReceiver (hidesReceiver scope) stmts = true →
      ∀ ⦃s t⦄, Laid ctx.isStatic scope scopes s →
        codeFrom ctx pos index (opsOf stmts) s = .ok () t →
        Performs ctx result bound scope (declaredIn stmts ++ scope) scopes
          (fun env => execAll ctx.config.narrowReinterpretation result bound env stmts) s t
  | [], _ => by
      intro s t laid run
      obtain ⟨-, rfl⟩ := pure_eq_ok.mp run
      simp only [execAll]
      exact Performs.refl laid
  | stmt :: rest, spared => by
      intro s t laid run
      simp only [bodySparesReceiver, Bool.and_eq_true] at spared
      obtain ⟨u, first, others⟩ := codeFrom_append_eq_ok.mp run
      have performs := stmt.ops_performs fresh isResult bound pos index scope scopes
        (spared.imp_right And.left) laid first
      rw [← hidesReceiver_append] at spared
      have performsRest := opsOf_performs fresh isResult bound pos (index + stmt.ops.length)
        (stmt.declared ++ scope) scopes rest (spared.imp_right And.right) performs.laid others
      rw [declaredIn, List.append_assoc]
      simp only [execAll]
      exact performs.trans performsRest

end

end

mutual

theorem IntStmt.isValueChain_of_mem : (stmt : IntStmt) →
    ∀ operand ∈ operandsIn stmt.ops, operand.isValueChain = true
  | .declare _ _ value | .store _ value => by
      simp only [IntStmt.ops, operandsIn, Op.operands, List.append_nil, List.mem_cons]
      rintro operand (rfl | mem)
      · exact value.isValueChain_ops
      · exact value.isValueChain_of_mem operand mem
  | .increment .. => by simp [IntStmt.ops, operandsIn, Op.operands]
  | .block body => by
      simp only [IntStmt.ops, operandsIn, Op.operands, List.append_nil]
      exact isValueChain_of_mem_opsOf body
  | .ifThen cond body | .whileLoop cond body => by
      simp only [IntStmt.ops, operandsIn, Op.operands, List.append_nil, List.mem_append]
      rintro operand (mem | mem)
      · exact cond.isValueChain_of_mem operand mem
      · exact isValueChain_of_mem_opsOf body operand mem
  | .ifElse cond body otherwise => by
      simp only [IntStmt.ops, operandsIn, Op.operands, List.append_nil, List.mem_append]
      rintro operand ((mem | mem) | mem)
      · exact cond.isValueChain_of_mem operand mem
      · exact isValueChain_of_mem_opsOf body operand mem
      · exact isValueChain_of_mem_opsOf otherwise operand mem
  | .returnValue value => by
      simp only [IntStmt.ops, operandsIn_append, operandsIn, Op.operands, List.append_nil]
      exact value.isValueChain_of_mem

theorem isValueChain_of_mem_opsOf : (stmts : List IntStmt) →
    ∀ operand ∈ operandsIn (opsOf stmts), operand.isValueChain = true
  | [] => by simp [opsOf, operandsIn]
  | stmt :: rest => by
      simp only [opsOf, operandsIn_append, List.mem_append]
      rintro operand (mem | mem)
      · exact stmt.isValueChain_of_mem operand mem
      · exact isValueChain_of_mem_opsOf rest operand mem

end

/-! ## Runs of a method -/

/-- Write values to successive slots. -/
def Store.enter (store : Store) (slot : Nat) : List Value → Store
  | [] => store
  | value :: rest => (store.set slot.toUInt16 value).enter (slot + value.category.width) rest

/-- The slots at the start of a method: its receiver, unless it is static, and its
arguments. -/
def Store.entry (isStatic : Bool) (receiver : Reference) (args : List Value) : Store :=
  Store.enter (fun _ => none) 0 (if isStatic then args else .reference receiver :: args)

theorem Machine.step?_of_done {program : List Instr} {machine : Machine} {result : Option Value}
    (done : machine.point = .done result) : machine.step? program = none := by
  simp [Machine.step?, done]

namespace AssembledMethod

/-- The machine before the first instruction. -/
def start (method : AssembledMethod) (receiver : Reference) (args : List Value) : Machine where
  point := .code method.instrs
  stack := []
  store := .entry method.access.isStatic receiver args

/-- The method returns a value. -/
def Returns (method : AssembledMethod) (receiver : Reference) (args : List Value) (value : Value) :
    Prop :=
  ∃ trace last, Exec method.instrs (method.start receiver args) trace last ∧
    last.point = .done (some value)

/-- The method has a run of so many steps. -/
def Lasts (method : AssembledMethod) (receiver : Reference) (args : List Value) (steps : Nat) :
    Prop :=
  ∃ trace last, Exec method.instrs (method.start receiver args) trace last ∧ steps ≤ trace.length

/-- The method does not come to an end. -/
def Diverges (method : AssembledMethod) (receiver : Reference) (args : List Value) : Prop :=
  ∀ steps, method.Lasts receiver args steps

variable {method : AssembledMethod} {receiver : Reference} {args : List Value} {value : Value}

theorem Returns.unique {value' : Value} (returns : method.Returns receiver args value)
    (returns' : method.Returns receiver args value') : value = value' := by
  obtain ⟨trace, last, run, done⟩ := returns
  obtain ⟨trace', last', run', done'⟩ := returns'
  obtain ⟨-, rfl⟩ := run.eq_of_halted run' (Machine.step?_of_done done)
    (Machine.step?_of_done done')
  simpa [done] using done'

theorem Returns.exists_not_lasts (returns : method.Returns receiver args value) :
    ∃ steps, ¬method.Lasts receiver args steps := by
  obtain ⟨trace, last, run, done⟩ := returns
  refine ⟨trace.length + 1, fun ⟨trace', last', run', longer⟩ => ?_⟩
  obtain ⟨rest, rfl, more⟩ := run.continue_of_le run' (by omega)
  cases more with
  | refl => simp at longer
  | step stepped _ => simp [Machine.step?_of_done done] at stepped

end AssembledMethod

/-! ## Entering a method -/

/-- The values of arguments. -/
def IntProgram.arguments (program : IntProgram) (args : List Int) : List Value :=
  program.params.zipWith (fun param n => param.2.value n) args

/-- Every argument is in the range of its parameter. -/
def IntProgram.Accepts (program : IntProgram) (args : List Int) : Prop :=
  List.Forall₂ (fun param n => param.2.Contains n) program.params args

/-- Parameters are variables above those in scope. -/
theorem Holds.enter {isStatic : Bool} {store : Store} {env : IntEnv}
    {params scope : List (String × IntType)} {args : List Int}
    (holds : Holds isStatic scope env store)
    (inRange : List.Forall₂ (fun param n => param.2.Contains n) params args)
    (fits : Fits isStatic (params.reverse ++ scope)) :
    Holds isStatic (params.reverse ++ scope)
      ((params.zipWith (fun param n => ⟨param.1, param.2, n⟩) args).reverse ++ env)
      (store.enter (layout isStatic scope).length
        (params.zipWith (fun param n => param.2.value n) args)) := by
  induction inRange generalizing store env scope with
  | nil => exact holds
  | @cons param n params args contains _ ih =>
      obtain ⟨name, ty⟩ := param
      obtain ⟨rfl, stored⟩ := holds
      rw [List.reverse_cons, List.append_assoc] at fits ⊢
      have declared := stored.declare (v := ⟨name, ty, n⟩) fits.of_append.1 contains
      have entered := ih ⟨rfl, declared⟩ fits
      rw [IntEnv.scope, List.map_cons, length_layout_cons] at entered
      rw [List.zipWith_cons_cons, List.zipWith_cons_cons, Store.enter, width_category_value,
        List.reverse_cons, List.append_assoc]
      exact entered

theorem bindParams_laid {isStatic : Bool} {params scope : List (String × IntType)}
    {scopes : List Nat} {s t : State} (laid : Laid isStatic scope scopes s)
    (run : bindParams (params.map fun param => (param.1, param.2.type)) s = .ok () t) :
    Laid isStatic (params.reverse ++ scope) scopes t := by
  induction params generalizing scope s with
  | nil =>
      obtain ⟨-, rfl⟩ := pure_eq_ok.mp run
      exact laid
  | cons param params ih =>
      obtain ⟨slot, u, added, others⟩ := bind_eq_ok.mp run
      obtain ⟨frame, adds, rfl⟩ := onFrame_eq_ok.mp added
      have laidAfter := ih (laid.addLocal adds).2.2 others
      simpa using laidAfter

/-! ## Programs -/

section

variable {program : IntProgram} {spec : MethodSpec} {cls : ClassContext}

/-- A method begins with its parameters laid out above the receiver. -/
theorem IntProgram.IsBodyOf.laid (isBody : program.IsBodyOf spec) {log : Array LogLine}
    {bound : State} (run : bindParams spec.bindings { log } = .ok () bound) :
    Laid spec.isStatic program.params.reverse [] bound := by
  obtain ⟨s, laid, binds⟩ : ∃ s, Laid spec.isStatic [] [] s ∧
      bindParams (program.params.map fun param => (param.1, param.2.type)) s = .ok () bound := by
    rw [MethodSpec.bindings, isBody.params_eq] at run
    cases isStatic : spec.isStatic with
    | true =>
        simp only [isStatic] at run
        exact ⟨_, ⟨rfl, rfl, trivial, by simp [State.ShapesBelow, State.shape?], rfl⟩, run⟩
    | false =>
        simp only [isStatic] at run
        obtain ⟨slot, u, added, others⟩ := bind_eq_ok.mp run
        obtain ⟨frame, adds, rfl⟩ := onFrame_eq_ok.mp added
        cases adds
        exact ⟨_, ⟨rfl, rfl, trivial, by simp [State.ShapesBelow, State.shape?, Frame.writeSlots],
          rfl⟩, others⟩
  simpa using bindParams_laid laid binds

/-- The values that a method is entered with, in the order of their slots. -/
theorem IntProgram.Accepts.holds {args : List Int} {isStatic : Bool}
    (accepts : program.Accepts args) (receiver : Reference)
    (fits : Fits isStatic program.params.reverse) :
    Holds isStatic program.params.reverse (program.start args)
      (.entry isStatic receiver (program.arguments args)) := by
  have fits : Fits isStatic (program.params.reverse ++ []) := by rwa [List.append_nil]
  have entered {store : Store} := Holds.enter (⟨rfl, trivial⟩ : Holds isStatic [] [] store) accepts
    fits
  simp only [List.append_nil] at entered
  cases isStatic with
  | true => exact entered
  | false => exact entered

/-- Generated with every operand probed anew, the method has the same
instructions. -/
theorem exists_run_anew {method : AssembledMethod}
    (chains : ∀ operand ∈ operandsIn spec.body, operand.isValueChain = true)
    (assembled : spec.assemble cls = .ok method) :
    ∃ limits t, Gen.method (spec.context cls).anew spec {} = .ok limits t ∧
      t.code = method.instrs ∧ method.access = spec.access := by
  obtain ⟨limits, s, ran, rfl⟩ := MethodSpec.exists_method_of_assemble assembled
  have tracks := method_tracks (rfl : (spec.context cls).probing = .remembered) chains
  have same : State.Matches {} {} := ⟨rfl, rfl⟩
  obtain ⟨t, ran', matches'⟩ := (tracks same ⟨by simp [Unprobed], rfl⟩).1.exists_ok ran
  exact ⟨limits, t, ran', by rw [State.code, matches'.output]; rfl, rfl⟩

/-- The whole code of a method performs its program, whose end cannot be
reached. -/
theorem IntProgram.IsBodyOf.performs {ctx : Context} {limits : Limits} {t : State}
    (isBody : program.IsBodyOf spec) (fresh : ctx.probing = .fresh)
    (isStatic : ctx.isStatic = spec.isStatic) (isResult : ctx.result = spec.result)
    (spared : spec.isStatic = true ∨ program.sparesReceiver = true)
    (run : Gen.method ctx spec {} = .ok limits t) (bound : Nat) :
    ∃ scope begun closed, begun.frame.alive = true ∧
      Laid ctx.isStatic program.params.reverse [] begun ∧
      Performs ctx program.result bound program.params.reverse scope []
        (fun env => execAll ctx.config.narrowReinterpretation program.result bound env program.body)
        begun closed ∧
      closed.frame.alive = false ∧ written begun closed = t.code := by
  obtain ⟨log, begun, generated, closed, binds, generates, closes, outputEq, -⟩ := method_eq_ok run
  obtain ⟨output, -, -, view, -⟩ := bindParams_keeps binds
  have alive : begun.frame.alive = true := by
    by_contra dead
    simp [State.view, dead] at view
  have laid := isBody.laid binds
  rw [← isStatic] at laid spared
  rw [isBody.body_eq] at generates
  have sparedBody : ctx.isStatic = true ∨
      bodySparesReceiver (hidesReceiver program.params.reverse) program.body = true := by
    simpa [hidesReceiver, IntProgram.sparesReceiver] using spared
  have performs := opsOf_performs fresh (isResult.trans isBody.result_eq) bound [] 0
    program.params.reverse [] program.body sparedBody laid generates
  -- A result is missing where the end of the body can be reached.
  obtain ⟨dead, rfl⟩ : generated.frame.alive = false ∧ closed = generated := by
    rcases whenAlive_eq_ok.mp closes with ⟨-, closing⟩ | ⟨dead, unchanged⟩
    · obtain ⟨isVoid, -⟩ := close_eq_ok closing
      simp [isBody.result_eq, IntType.isVoid_type] at isVoid
    · exact ⟨dead, unchanged.symm⟩
  refine ⟨_, begun, closed, alive, laid, performs, dead, ?_⟩
  have grown := performs.code_eq
  rw [show begun.code = [] by simp [State.code, output], List.nil_append] at grown
  rw [← grown, State.code, State.code, outputEq]

/-- For every bound, the program returns what the method returns, or the method
has a run as long as the bound. -/
theorem IntProgram.IsBodyOf.realized {method : AssembledMethod} {args : List Int}
    (isBody : program.IsBodyOf spec)
    (spared : spec.isStatic = true ∨ program.sparesReceiver = true)
    (assembled : spec.assemble cls = .ok method) (accepts : program.Accepts args)
    (receiver : Reference) (bound : Nat) :
    (∃ n, program.run cls.config.narrowReinterpretation bound args = some (.returned n) ∧
        program.result.Contains n ∧
        method.Returns receiver (program.arguments args) (program.result.value n)) ∨
      (program.run cls.config.narrowReinterpretation bound args = some .exhausted ∧
        method.Lasts receiver (program.arguments args) bound) := by
  have chains : ∀ operand ∈ operandsIn spec.body, operand.isValueChain = true := by
    rw [isBody.body_eq]
    exact isValueChain_of_mem_opsOf program.body
  obtain ⟨limits, t, run, codeEq, accessEq⟩ := exists_run_anew chains assembled
  have nodup : (placed method.instrs).Nodup := by
    obtain ⟨closed, outputEq, closedFlow, -⟩ := method_closed run
    rw [← codeEq, State.code, outputEq]
    exact closedFlow.placed_nodup
  obtain ⟨scope, begun, closed, alive, laid, performs, dead, isCode⟩ :=
    isBody.performs rfl rfl rfl spared run bound
  obtain ⟨outcome, isOutcome, realized⟩ :=
    performs.realizes ⟨accepts.holds receiver laid.fits, alive⟩
  rw [isCode, codeEq] at realized
  have within : Within method.instrs method.instrs [] := ⟨nodup, by rw [List.append_nil]⟩
  have start : method.start receiver (program.arguments args) =
      ⟨.code (method.instrs ++ []), [],
        .entry spec.isStatic receiver (program.arguments args)⟩ := by
    rw [AssembledMethod.start, accessEq, List.append_nil]
    rfl
  unfold AssembledMethod.Returns AssembledMethod.Lasts
  rw [start]
  cases outcome with
  | next env =>
      obtain ⟨_, ⟨-, alive⟩, -⟩ := realized
      simp [alive] at dead
  | returned n =>
      obtain ⟨contains, takes⟩ := realized
      obtain ⟨trace, last, run, -, done⟩ := takes within []
      exact .inl ⟨n, isOutcome, contains, trace, last, run, done⟩
  | exhausted =>
      obtain ⟨trace, last, run, enough, -⟩ := realized within []
      exact .inr ⟨isOutcome, trace, last, run, enough⟩

end

/-- Assembled programs keep their meaning.  For arguments in range, the program
returns a number exactly if the method returns it, and diverges exactly if the
method does; one of the two is the case, so that the method never gets stuck.
The receiver of an instance method is no number, and the program does not use
it. -/
theorem IntProgram.returns_iff_and_diverges_iff (program : IntProgram) (spec : MethodSpec)
    (cls : ClassContext) (method : AssembledMethod) (args : List Int) (receiver : Reference)
    (isBody : program.IsBodyOf spec)
    (spared : spec.isStatic = true ∨ program.sparesReceiver = true)
    (assembled : spec.assemble cls = .ok method) (accepts : program.Accepts args) :
    (∀ n, program.Returns cls.config.narrowReinterpretation args n ↔
        program.result.Contains n ∧
          method.Returns receiver (program.arguments args) (program.result.value n)) ∧
      (program.Diverges cls.config.narrowReinterpretation args ↔
        method.Diverges receiver (program.arguments args)) ∧
      ((∃ n, program.Returns cls.config.narrowReinterpretation args n) ∨
        program.Diverges cls.config.narrowReinterpretation args) := by
  have realized := isBody.realized spared assembled accepts receiver
  refine ⟨fun n => ⟨?_, ?_⟩, ⟨?_, ?_⟩, ?_⟩
  · rintro ⟨bound, returned⟩
    rcases realized bound with ⟨m, isOutcome, contains, returns⟩ | ⟨isOutcome, -⟩
    · obtain rfl : m = n := by simpa [returned, eq_comm] using isOutcome
      exact ⟨contains, returns⟩
    · simp [returned] at isOutcome
  · rintro ⟨contains, returns⟩
    -- A bound that is longer than the run of the method is enough.
    obtain ⟨bound, short⟩ := returns.exists_not_lasts
    rcases realized bound with ⟨m, isOutcome, contains', returns'⟩ | ⟨-, lasts⟩
    · obtain rfl := IntType.value_inj contains' contains (returns'.unique returns)
      exact ⟨bound, isOutcome⟩
    · exact absurd lasts short
  · intro diverges bound
    rcases realized bound with ⟨m, isOutcome, -⟩ | ⟨-, lasts⟩
    · simp [diverges bound] at isOutcome
    · exact lasts
  · intro diverges bound
    rcases realized bound with ⟨m, -, -, returns⟩ | ⟨isOutcome, -⟩
    · obtain ⟨steps, short⟩ := returns.exists_not_lasts
      exact absurd (diverges steps) short
    · exact isOutcome
  · by_cases returns : ∃ n, program.Returns cls.config.narrowReinterpretation args n
    · exact .inl returns
    · refine .inr fun bound => ?_
      rcases realized bound with ⟨m, isOutcome, -⟩ | ⟨isOutcome, -⟩
      · exact absurd ⟨m, bound, isOutcome⟩ returns
      · exact isOutcome

namespace Sample

/-- `long total = 0; while (n > 0) { total = total + n; n += -1; } return total;` -/
def triangle : IntProgram where
  params := [("n", .int)]
  result := .long
  body :=
    [.declare "total" .long (.long 0),
      .whileLoop (.compare .gt (.load "n") (.int 0) false)
        [.store "total" (.arith .add (.load "total") (.load "n")), .increment "n" (-1)],
      .returnValue (.load "total")]

/-- The program as a static method. -/
def triangleSpec : MethodSpec where
  name := "triangle"
  access := .publicStatic
  params := [("n", .int)]
  result := .long
  body := opsOf triangle.body

/-- The sum of the numbers up to three. -/
theorem triangle_returns_six :
    ∃ method, triangleSpec.assemble (classContext "Demo" {}) = .ok method ∧
      triangle.Accepts [3] ∧ triangle.Returns true [3] 6 ∧
      method.Returns .null [.int 3] (.long 6) ∧ ¬method.Diverges .null [.int 3] := by
  have isBody : triangle.IsBodyOf triangleSpec := ⟨rfl, rfl, rfl⟩
  have accepts : triangle.Accepts [3] := .cons (by decide) .nil
  have returns : triangle.Returns true [3] 6 := ⟨4, rfl⟩
  have succeeds : (triangleSpec.assemble (classContext "Demo" {})).toOption.isSome = true := by
    decide +kernel
  cases assembled : triangleSpec.assemble (classContext "Demo" {}) with
  | error e => simp [assembled, Except.toOption] at succeeds
  | ok method =>
      obtain ⟨returnsIff, divergesIff, -⟩ := IntProgram.returns_iff_and_diverges_iff triangle
        triangleSpec (classContext "Demo" {}) method [3] .null isBody (.inl rfl) assembled accepts
      refine ⟨method, rfl, accepts, returns, ((returnsIff 6).mp returns).2, fun diverges => ?_⟩
      obtain ⟨bound, returned⟩ := returns
      have exhausted := divergesIff.mpr diverges bound
      exact absurd (returned.symm.trans exhausted) (by simp)

end Sample

end JvmAssembler
