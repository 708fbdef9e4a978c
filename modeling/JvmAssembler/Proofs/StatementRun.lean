import Mathlib
import JvmAssembler.Proofs.ExpressionRun
import JvmAssembler.Proofs.OutcomeRun
import JvmAssembler.Proofs.StatementFlow

/-!
# What the code of statements does

The code of a statement realizes the outcome of the statement in every
environment whose variables are laid out in the local slots.  Statements are
generated once and run in many environments: what is written, and where
variables are laid out after it, does not depend on their values.
-/

namespace JvmAssembler

open Gen

/-! ## Written parts -/

/-- What is written between two states follows what was written before. -/
structure Writes (targets : List Label) (s t : State) : Prop where
  later : Later targets s t
  code_eq : t.code = s.code ++ written s t

namespace Writes

variable {targets targets' : List Label} {s s' t t' u : State} {label : Label} {ctx : Context}

theorem of_executes {setting : Setting} {before after : List Value} {loads : List Instr}
    {exit : Option Label} (executes : Executes setting targets before loads exit after s t) :
    Writes targets s t :=
  ⟨executes.later, executes.code_eq⟩

theorem refl (s : State) : Writes targets s s :=
  ⟨Later.refl targets s, by simp [written]⟩

theorem trans (first : Writes targets s u) (second : Writes targets' u t)
    (known : ∀ label ∈ targets',
      label ∈ targets ∨ (s.output.nextLabel ≤ label.id ∧ label.id < u.output.nextLabel)) :
    Writes targets s t where
  later := first.later.trans second.later known
  code_eq := by
    rw [written_trans first.code_eq second.code_eq, ← List.append_assoc, ← first.code_eq]
    exact second.code_eq

theorem written_trans (first : Writes targets s u) (second : Writes targets' u t) :
    written s t = written s u ++ written u t :=
  JvmAssembler.written_trans first.code_eq second.code_eq

theorem mono (writes : Writes targets s t) (more : targets ⊆ targets') : Writes targets' s t :=
  ⟨writes.later.mono more, writes.code_eq⟩

theorem of_emits {code : List Instr} {stack : List JType} (emits : Emits s t code stack) :
    Writes targets s t ∧ written s t = code := by
  have grown : t.code = s.code ++ code := emits.instrs_eq
  exact ⟨⟨Later.of_shapes emits.nextLabel_eq emits.shapes_eq, by rw [written_eq grown, grown]⟩,
    written_eq grown⟩

theorem of_place (run : place ctx label s = .ok () t) :
    Writes [label] s t ∧ written s t = [.label label] := by
  obtain ⟨marks, later⟩ := place_later run
  exact ⟨⟨later, marks.code_eq⟩, marks.written_eq⟩

theorem of_jump {op : Opcode} (run : jump ctx op label s = .ok () t) :
    Writes [label] s t ∧ written s t = [.jump op label] := by
  obtain ⟨marks, -, -, records⟩ := jump_marks run
  exact ⟨⟨marks.later records, marks.code_eq⟩, marks.written_eq⟩

theorem of_newLabel (run : newLabel s = .ok label t) :
    Writes targets s t ∧ written s t = [] := by
  have unwritten : t.code = s.code := by
    obtain ⟨-, rfl⟩ := newLabel_eq_ok.mp run
    rfl
  exact ⟨⟨newLabel_later run, by simp [written, unwritten]⟩, by simp [written, unwritten]⟩

theorem of_newLabels {first second : Label} (allocated : newLabel s = .ok first u)
    (allocatedNext : newLabel u = .ok second t) :
    Writes targets s t ∧ written s t = [] ∧ t.frame = s.frame ∧
      ∀ label ∈ [first, second],
        s.output.nextLabel ≤ label.id ∧ label.id < t.output.nextLabel := by
  obtain ⟨one, nothing⟩ : Writes targets s u ∧ _ := of_newLabel allocated
  obtain ⟨two, nothing'⟩ : Writes targets u t ∧ _ := of_newLabel allocatedNext
  refine ⟨one.trans two fun _ => .inl, by rw [one.written_trans two, nothing, nothing']; rfl, ?_⟩
  obtain ⟨rfl, rfl⟩ := newLabel_eq_ok.mp allocated
  obtain ⟨rfl, rfl⟩ := newLabel_eq_ok.mp allocatedNext
  simp

/-- Only the output and the recorded shapes of the states matter. -/
theorem congr (writes : Writes targets s t) (shapes : s'.frame.shapes = s.frame.shapes)
    (output : s'.output = s.output) (endShapes : t'.frame.shapes = t.frame.shapes)
    (endOutput : t'.output = t.output) : Writes targets s' t' := by
  have starts : Writes targets s' s :=
    ⟨Later.of_shapes (by rw [output]) shapes.symm, by simp [written, State.code, output]⟩
  have ends : Writes targets t t' :=
    ⟨Later.of_shapes (by rw [endOutput]) endShapes, by simp [written, State.code, endOutput]⟩
  exact (starts.trans writes fun _ => .inl).trans ends fun _ => .inl

end Writes

/-! ## Statements -/

/-- The environment has the variables of the scope, and their slots hold their
values. -/
structure Holds (isStatic : Bool) (scope : List (String × IntType)) (env : IntEnv)
    (store : Store) : Prop where
  scope_eq : IntEnv.scope env = scope
  stored : Stored isStatic store env

/-- Evaluation goes on in a scope at a position that can be reached. -/
def GoesOn (isStatic : Bool) (scope : List (String × IntType)) (t : State) (env : IntEnv)
    (store : Store) : Prop :=
  Holds isStatic scope env store ∧ t.frame.alive = true

/-- What is written between two states realizes the outcome of evaluation, which
begins in one scope and goes on in another. -/
structure Performs (ctx : Context) (result : IntType) (bound : Nat)
    (scope scope' : List (String × IntType)) (scopes : List Nat)
    (exec : IntEnv → Option IntOutcome) (s t : State) : Prop extends Writes [] s t where
  laid : Laid ctx.isStatic scope' scopes t
  realizes : ∀ ⦃env store⦄, GoesOn ctx.isStatic scope s env store →
    ∃ outcome, exec env = some outcome ∧
      outcome.Realized result bound (GoesOn ctx.isStatic scope' t) (Takes (written s t) store) 0
        none

section

variable {ctx : Context} {result : IntType} {bound : Nat}
variable {scope scope' scope'' inner : List (String × IntType)} {scopes : List Nat}
variable {exec exec' : IntEnv → Option IntOutcome} {s t u v w : State}

theorem Laid.exists_holds (laid : Laid ctx.isStatic scope scopes s) :
    ∃ env store, Holds ctx.isStatic scope env store := by
  obtain ⟨env, store, scopeEq, stored⟩ := laid.fits.exists_stored
  exact ⟨env, store, scopeEq, stored⟩

namespace Performs

theorem operation {depth : Nat}
    (performs : Performs ctx result bound scope scope' scopes exec { s with depth } t)
    (outer : Nat) : Performs ctx result bound scope scope' scopes exec s (t.leave outer) where
  toWrites := performs.toWrites.congr rfl rfl rfl rfl
  laid := performs.laid.leave outer
  realizes := performs.realizes

/-- Evaluate one part, and the next one where evaluation goes on. -/
def andThen (first second : IntEnv → Option IntOutcome) (env : IntEnv) : Option IntOutcome := do
  match ← first env with
  | .next env => second env
  | outcome => return outcome

theorem trans (first : Performs ctx result bound scope scope' scopes exec s u)
    (second : Performs ctx result bound scope' scope'' scopes exec' u t) :
    Performs ctx result bound scope scope'' scopes (andThen exec exec') s t where
  toWrites := first.toWrites.trans second.toWrites (by simp)
  laid := second.laid
  realizes := by
    intro env store goesOn
    rw [first.toWrites.written_trans second.toWrites]
    obtain ⟨outcome, isOutcome, realized⟩ := first.realizes goesOn
    cases outcome with
    | next env' =>
        obtain ⟨after, goesOn', reached⟩ := realized
        obtain ⟨outcome, isOutcome', realized'⟩ := second.realizes goesOn'
        exact ⟨outcome, by simp [andThen, isOutcome, isOutcome'], realized'.before reached⟩
    | returned n =>
        exact ⟨.returned n, by simp [andThen, isOutcome], realized.1, realized.2.leave trivial _⟩
    | exhausted =>
        exact ⟨.exhausted, by simp [andThen, isOutcome], Takes.leave realized trivial _⟩

/-- Evaluate in a scope of its own. -/
def leavingScope (exec : IntEnv → Option IntOutcome) (env : IntEnv) : Option IntOutcome := do
  return (← exec env).leaving env

theorem inScope {body : Gen Unit}
    (performs : ∀ ⦃u⦄, body s.entered = .ok () u →
      Performs ctx result bound scope (inner ++ scope)
        ((layout ctx.isStatic scope).length :: scopes) exec s.entered u)
    (run : Gen.inScope body s = .ok () t) :
    Performs ctx result bound scope scope scopes (leavingScope exec) s t := by
  obtain ⟨u, start, rest, ran, scopesEq, rfl⟩ := inScope_eq_ok.mp run
  have performs := performs ran
  obtain ⟨rfl, rfl⟩ := List.cons.inj (performs.laid.scopes_eq.symm.trans scopesEq)
  refine ⟨performs.toWrites.congr rfl rfl rfl rfl, performs.laid.left, fun env store goesOn => ?_⟩
  obtain ⟨outcome, isOutcome, realized⟩ := performs.realizes goesOn
  refine ⟨outcome.leaving env, by simp [leavingScope, isOutcome], realized.leaving ?_⟩
  rintro inside after ⟨⟨scopeEq, stored⟩, alive⟩
  -- The variables of the inner scope are dropped.
  have length : inside.length = inner.length + env.length := by
    have lengths := congrArg List.length scopeEq
    rw [← goesOn.1.scope_eq] at lengths
    simpa [IntEnv.scope] using lengths
  have dropped : inside.length - env.length = inner.length := by omega
  refine ⟨⟨?_, ?_⟩, alive⟩
  · rw [dropped, IntEnv.scope, List.map_drop]
    exact (congrArg (List.drop inner.length) scopeEq).trans List.drop_left
  · rw [← List.take_append_drop (inside.length - env.length) inside] at stored
    exact stored.of_append

end Performs

/-! ## Assignments -/

theorem Gen.storeSlot_emits {slot : Slot} (run : storeSlot ctx slot s = .ok () t) :
    ∃ ty rest, s.frame.stack = ty :: rest ∧ Emits s t [.var (.storeOf ty) slot] rest := by
  obtain ⟨ty, u, popping, emitted⟩ := bind_eq_ok.mp run
  obtain ⟨rest, stackEq, popped⟩ := pop_emits popping
  have emits := emit_emits rfl emitted
  have whole := popped.trans emits
  rw [popped.stack_eq] at whole
  exact ⟨ty, rest, stackEq, whole⟩

/-- A value is computed and stored; between the two, variables may be laid
out. -/
theorem Performs.of_assignment {slot : Slot} (ty : IntType)
    (run : storeSlot ctx slot w = .ok () t) (laid : Laid ctx.isStatic scope scopes s)
    (laidAfter : Laid ctx.isStatic scope' scopes w)
    (stack : w.frame.stack = v.frame.stack) (alive : w.frame.alive = v.frame.alive)
    (shapes : w.frame.shapes = v.frame.shapes) (output : w.output = v.output)
    (assigns : ∀ ⦃env store⦄, Holds ctx.isStatic scope env store → ∃ n env',
      Computes (laying store ctx.isStatic scope scopes) ty.type (ty.value n) [] s v ∧
        exec env = some (.next env') ∧
        Holds ctx.isStatic scope' env' (store.set slot (ty.value n))) :
    Performs ctx result bound scope scope' scopes exec s t := by
  obtain ⟨env₀, store₀, holds₀⟩ := laid.exists_holds
  obtain ⟨_, _, computes₀, -⟩ := assigns holds₀
  obtain ⟨found, rest, stackEq, emits⟩ := storeSlot_emits run
  obtain ⟨rfl, rfl⟩ := List.cons.inj ((stack.trans computes₀.stack_eq).symm.trans stackEq)
  have first : Writes [] s w :=
    (Writes.of_executes computes₀.toExecutes).congr rfl rfl shapes output
  obtain ⟨second, code⟩ : Writes [] w t ∧ _ := Writes.of_emits emits
  refine ⟨first.trans second (by simp), Laid.stable.emits emits laidAfter,
    fun env store goesOn => ?_⟩
  obtain ⟨n, env', computes, isOutcome, holdsAfter⟩ := assigns goesOn.1
  refine ⟨.next env', isOutcome, _, ⟨holdsAfter, ?_⟩, ?_⟩
  · rw [emits.alive_eq, alive, computes.alive]
  · rw [first.written_trans second, code]
    have same : written s w = written s v := by simp [written, State.code, output]
    rw [same]
    exact Takes.stored rfl slot computes.runs (ty.category_value n)

/-- The value of an expression is computed and converted. -/
theorem IntExpr.converted_computes {e : IntExpr} {target : IntType} {pos : Position}
    {index depth : Nat} (fresh : ctx.probing = .fresh) (spares : Spares ctx.isStatic scope e.loads)
    (alive : s.frame.alive = true) (laid : Laid ctx.isStatic scope scopes s)
    (generated : codeFrom ctx pos index e.ops s = .ok () u)
    (coerced : coerceTop ctx target.type { u with depth } = .ok () v) {env : IntEnv} {store : Store}
    (holds : Holds ctx.isStatic scope env store) :
    ∃ n, e.eval ctx.config.narrowReinterpretation env = some n ∧
      Computes (laying store ctx.isStatic scope scopes) target.type (target.value (target.wrap n))
        [] s v := by
  obtain ⟨rfl, stored⟩ := holds
  obtain ⟨ty, n, -, isValue, contains, computes⟩ := e.ops_computed ⟨fresh, stored⟩ pos index scopes
    spares alive laid generated
  exact ⟨n, isValue, ((computes.deeper depth).coerced_number Laid.stable contains coerced).2⟩

/-- A new variable is laid out above the others. -/
theorem Laid.addLocal {isStatic : Bool} {name : String} {ty : IntType} {slot : Slot} {frame : Frame}
    (laid : Laid isStatic scope scopes s)
    (run : Frame.addLocal (some name) ty.type s.frame = .ok slot frame) :
    (layout isStatic scope).length ≤ 65535 ∧ slot = (layout isStatic scope).length.toUInt16 ∧
      Laid isStatic ((name, ty) :: scope) scopes { s with frame } := by
  obtain ⟨small, isSlot, localsEq, scopesEq⟩ := addLocal_layout laid.locals_eq run
  have later : Later [] s { s with frame } := Later.of_shapes rfl (addLocal_keeps run).2.2.1
  exact ⟨small, isSlot, localsEq, scopesEq.trans laid.scopes_eq, ⟨small, laid.fits⟩,
    later.shapesBelow laid.shapesBelow (by simp), laid.probed_eq⟩

theorem declare_performs {name : String} {ty : IntType} {init : IntExpr} {pos : Position}
    (fresh : ctx.probing = .fresh) (spares : Spares ctx.isStatic scope init.loads)
    (alive : s.frame.alive = true) (laid : Laid ctx.isStatic scope scopes s)
    (run : declare ctx name ty.type (codeFrom ctx pos 0 init.ops) s = .ok () t) :
    Performs ctx result bound scope ((name, ty) :: scope) scopes
      (fun env => do
        return .next (⟨name, ty, ty.wrap
          (← init.eval ctx.config.narrowReinterpretation env)⟩ :: env)) s t := by
  obtain ⟨_, u, valued, run⟩ := bind_eq_ok.mp run
  have generated := (value_eq_ok.mp valued).1
  obtain ⟨_, v, coerced, run⟩ := bind_eq_ok.mp run
  obtain ⟨slot, w, added, stored⟩ := bind_eq_ok.mp run
  obtain ⟨frame, adds, rfl⟩ := onFrame_eq_ok.mp added
  obtain ⟨stackEq, aliveEq, shapesEq, -⟩ := addLocal_keeps adds
  have laidV : Laid ctx.isStatic scope scopes v := by
    obtain ⟨env₀, store₀, holds₀⟩ := laid.exists_holds
    obtain ⟨_, -, computes₀⟩ :=
      IntExpr.converted_computes fresh spares alive laid generated coerced holds₀
    exact computes₀.keeps
  obtain ⟨small, rfl, laidAfter⟩ := laidV.addLocal adds
  refine Performs.of_assignment ty stored laid laidAfter stackEq aliveEq shapesEq rfl
    fun env store holds => ?_
  obtain ⟨n, isValue, computes⟩ :=
    IntExpr.converted_computes fresh spares alive laid generated coerced holds
  refine ⟨ty.wrap n, ⟨name, ty, ty.wrap n⟩ :: env, computes, by simp [isValue], ?_⟩
  obtain ⟨rfl, isStored⟩ := holds
  exact ⟨rfl, isStored.declare (v := ⟨name, ty, ty.wrap n⟩) small (ty.contains_wrap n)⟩

/-- The variable of a name, and what an assignment to it does. -/
theorem Holds.variable {env : IntEnv} {store : Store} {name : String} {index : Nat}
    (holds : Holds ctx.isStatic scope env store)
    (found : Frame.indexIn? (.ofSlots (layout ctx.isStatic scope)) name = some index)
    (spares : Spares ctx.isStatic scope [name]) :
    ∃ v, IntEnv.lookup? env name = some v ∧
      Frame.typeIn? (.ofSlots (layout ctx.isStatic scope)) index.toUInt16.toNat =
        some v.type.type ∧
      store index.toUInt16 = some (v.type.value v.value) ∧ v.type.Contains v.value ∧
      ∀ n, ∃ env', IntEnv.assign? name n env = some env' ∧
        Holds ctx.isStatic scope env'
          (store.set index.toUInt16 (v.type.value (v.type.wrap n))) := by
  obtain ⟨rfl, stored⟩ := holds
  obtain ⟨v, isVariable, small, isType, isValue, contains⟩ := stored.lookup found
    (spares.imp_right fun either => either.imp_right fun unused => by simpa [eq_comm] using unused)
  refine ⟨v, isVariable, by rw [toNat_toUInt16 small, isType], isValue, contains, fun n => ?_⟩
  obtain ⟨index', env', found', -, -, assigned, scopeEq, stored'⟩ := stored.assign isVariable n
  obtain rfl := Option.some.inj (found.symm.trans found')
  exact ⟨env', assigned, scopeEq, stored'⟩

theorem store_performs {name : String} {value : IntExpr} {pos : Position}
    (fresh : ctx.probing = .fresh) (spares : Spares ctx.isStatic scope (name :: value.loads))
    (alive : s.frame.alive = true) (laid : Laid ctx.isStatic scope scopes s)
    (run : store ctx (.named name) (codeFrom ctx pos 0 value.ops) s = .ok () t) :
    Performs ctx result bound scope scope scopes
      (fun env => do
        return .next (← IntEnv.assign? name
          (← value.eval ctx.config.narrowReinterpretation env) env)) s t := by
  have sparesName : Spares ctx.isStatic scope [name] := spares.mono (by simp)
  have sparesValue : Spares ctx.isStatic scope value.loads := spares.mono (by simp)
  obtain ⟨_, _, target, run⟩ := bind_eq_ok.mp run
  obtain ⟨slot, _, resolved, target⟩ := bind_eq_ok.mp target
  obtain ⟨⟨index, found, rfl⟩, rfl⟩ := resolveIndex_eq_ok.mp resolved
  obtain ⟨declared, _, typing, returned⟩ := bind_eq_ok.mp target
  obtain ⟨typed, rfl⟩ := localType_eq_ok.mp typing
  obtain ⟨rfl, rfl⟩ := pure_eq_ok.mp returned
  obtain ⟨_, u, valued, run⟩ := bind_eq_ok.mp run
  have generated := (value_eq_ok.mp valued).1
  obtain ⟨_, v, coerced, stored⟩ := bind_eq_ok.mp run
  rw [laid.locals_eq] at found typed
  obtain ⟨env₀, store₀, holds₀⟩ := laid.exists_holds
  obtain ⟨var₀, -, isType₀, -⟩ := holds₀.variable found sparesName
  obtain rfl := Option.some.inj (typed.symm.trans isType₀)
  obtain ⟨_, -, computes₀⟩ :=
    IntExpr.converted_computes fresh sparesValue alive laid generated coerced holds₀
  refine Performs.of_assignment var₀.type stored laid computes₀.keeps rfl rfl rfl rfl
    fun env store holds => ?_
  obtain ⟨var, -, isType, -, -, assigns⟩ := holds.variable found sparesName
  have sameType : var.type = var₀.type :=
    IntType.type_inj.mp (Option.some.inj (isType.symm.trans typed))
  obtain ⟨n, isValue, computes⟩ :=
    IntExpr.converted_computes fresh sparesValue alive laid generated coerced holds
  obtain ⟨env', assigned, holdsAfter⟩ := assigns n
  rw [sameType] at holdsAfter
  exact ⟨_, env', computes, by simp [isValue, assigned], holdsAfter⟩

theorem IntType.computational_primitive (ty : IntType) :
    ty.primitive.computational = ty.promoted.primitive := by
  cases ty <;> rfl

/-- A step is a number of every type in which it is added. -/
theorem IntType.stepLiteral_promoted (ty : IntType) (step : Int32) :
    (stepLiteral step ty.promoted.primitive).type = ty.promoted.type ∧
      Value.ofLiteral (stepLiteral step ty.promoted.primitive) =
        ty.promoted.value step.toInt ∧
      ty.promoted.Contains step.toInt := by
  cases ty with
  | long =>
      have isStep : step.toInt64.toInt = step.toInt := Int32.toInt_toInt64 step
      refine ⟨rfl, ?_, ?_⟩
      · rw [← isStep]
        exact (IntType.value_toInt_long step.toInt64).symm
      · rw [← isStep]
        exact IntType.contains_toInt_long step.toInt64
  | _ => exact ⟨rfl, (IntType.value_toInt_int step).symm, IntType.contains_toInt_int step⟩

/-- The code between loading a variable and storing it again. -/
theorem incremented_computes {slot : Slot} {ty : IntType} {n : Int} {step : Int32} {store : Store}
    {types : List JType} {s₁ s₂ s₃ s₄ s₅ : State} (laid : Laid ctx.isStatic scope scopes s)
    (alive : s.frame.alive = true) (isValue : store slot = some (ty.value n))
    (contains : ty.Contains n) (loaded : loadSlot ctx slot ty.type s = .ok () s₁)
    (literal : constant ctx (stepLiteral step ty.promoted.primitive) s₁ = .ok () s₂)
    (popping : popN 2 s₂ = .ok types s₃)
    (added : emitOp ctx (Opcode.iadd + ty.promoted.primitive.typecode) s₃ = .ok () s₄)
    (pushing : push ty.promoted.type s₄ = .ok () s₅)
    (cast : castTop ctx ty.type s₅ = .ok () t) :
    Computes (laying store ctx.isStatic scope scopes) ty.type
      (ty.value (ty.wrap (n + step.toInt))) [] s t := by
  obtain ⟨notVoid, loads⟩ := loadSlot_emits loaded
  have first : Computes (laying store ctx.isStatic scope scopes) ty.type (ty.value n) [] s s₁ :=
    ⟨Executes.of_emits Laid.stable laid loads
      (Runs.of_loadOf notVoid isValue (ty.category_value n)), loads.alive_eq.trans alive,
      loads.stack_eq⟩
  obtain ⟨isType, isStep, containsStep⟩ := ty.stepLiteral_promoted step
  have second : Computes (laying store ctx.isStatic scope scopes) ty.promoted.type
      (ty.promoted.value step.toInt) [] s₁ s₂ :=
    constant_computes first.keeps first.alive literal isType isStep
  -- A narrow number is held like an `int`.
  have sameValue : ty.value n = ty.promoted.value n := by cases ty <;> rfl
  rw [sameValue] at first
  have promoted : IntOp.add.ComputesIn ty.promoted := by
    cases ty <;> simp [IntType.promoted, IntOp.ComputesIn]
  obtain ⟨inRange, calculation, isCalculation, applied⟩ :=
    IntOp.calculates promoted contains.promote containsStep
  have sameCode : Opcode.truncate ty.promoted.type.typecode = ty.promoted.primitive.typecode := by
    cases ty <;> rfl
  rw [sameCode] at isCalculation
  obtain ⟨both, stackEq⟩ := first.pair second
  have plain : (Instr.op (Opcode.iadd + ty.promoted.primitive.typecode)).isPlain = true ∧
      (Instr.op (Opcode.iadd + ty.promoted.primitive.typecode)).isLoad = false := by
    cases ty <;> exact ⟨rfl, rfl⟩
  obtain ⟨-, popped⟩ := popN_emits popping
  have writes := emit_emits plain.1 added
  have emits := (popped.trans writes).trans (push_emits pushing).1
  rw [writes.stack_eq, popped.stack_eq, stackEq] at emits
  have adds : Executes (laying store ctx.isStatic scope scopes) [] [_, _] [] none [_] s₂ s₅ :=
    Executes.of_emits Laid.stable both.keeps emits
      (Runs.of_calculation isCalculation plain.2 applied)
  have sum : Computes (laying store ctx.isStatic scope scopes) ty.promoted.type
      (ty.promoted.value (ty.promoted.wrap (n + step.toInt))) [] s s₅ :=
    ⟨both.trans adds (by simp), emits.alive_eq.trans second.alive, emits.stack_eq⟩
  have narrowed := sum.cast_number Laid.stable inRange cast
  rwa [IntType.wrap_wrap_of_le (by cases ty <;> decide)] at narrowed

theorem increment_performs {name : String} {step : Int32}
    (spares : Spares ctx.isStatic scope [name]) (alive : s.frame.alive = true)
    (laid : Laid ctx.isStatic scope scopes s)
    (run : increment ctx (.named name) step s = .ok () t) :
    Performs ctx result bound scope scope scopes
      (fun env => do
        let v ← IntEnv.lookup? env name
        return .next (← IntEnv.assign? name (v.value + step.toInt) env)) s t := by
  obtain ⟨slot, _, resolved, run⟩ := bind_eq_ok.mp run
  obtain ⟨⟨index, found, rfl⟩, rfl⟩ := resolveIndex_eq_ok.mp resolved
  obtain ⟨ty, _, typing, run⟩ := bind_eq_ok.mp run
  obtain ⟨typed, rfl⟩ := localType_eq_ok.mp typing
  rw [laid.locals_eq] at found typed
  obtain ⟨env₀, store₀, holds₀⟩ := laid.exists_holds
  obtain ⟨var₀, -, isType₀, isValue₀, contains₀, -⟩ := holds₀.variable found spares
  obtain rfl := Option.some.inj (typed.symm.trans isType₀)
  cases numeric : var₀.type.type.asPrimitive?.filter Primitive.isNumeric with
  | none =>
      simp only [numeric] at run
      exact (throw_eq_ok.mp run).elim
  | some p =>
      simp only [numeric] at run
      obtain ⟨isPrimitive, -⟩ := Option.filter_eq_some_iff.mp numeric
      obtain rfl : var₀.type.primitive = p := Option.some.inj isPrimitive
      rw [IntType.computational_primitive] at run
      obtain ⟨_, s₁, loaded, run⟩ := bind_eq_ok.mp run
      obtain ⟨_, s₂, literal, run⟩ := bind_eq_ok.mp run
      obtain ⟨_, s₃, popping, run⟩ := bind_eq_ok.mp run
      obtain ⟨_, s₄, added, run⟩ := bind_eq_ok.mp run
      obtain ⟨_, s₅, pushing, run⟩ := bind_eq_ok.mp run
      obtain ⟨_, s₆, cast, stored⟩ := bind_eq_ok.mp run
      have computes {n : Int} {store : Store} (isValue : store index.toUInt16 =
          some (var₀.type.value n)) (contains : var₀.type.Contains n) :=
        incremented_computes laid alive isValue contains loaded literal popping added pushing cast
      refine Performs.of_assignment var₀.type stored laid (computes isValue₀ contains₀).keeps rfl
        rfl rfl rfl fun env store holds => ?_
      obtain ⟨var, isVariable, isType, isValue, contains, assigns⟩ := holds.variable found spares
      have sameType : var.type = var₀.type :=
        IntType.type_inj.mp (Option.some.inj (isType.symm.trans typed))
      obtain ⟨env', assigned, holdsAfter⟩ := assigns (var.value + step.toInt)
      rw [sameType] at isValue contains holdsAfter
      exact ⟨_, env', computes isValue contains, by simp [isVariable, assigned], holdsAfter⟩

/-! ## Results -/

/-- The value of an expression is computed, converted and returned; nothing
after it can be reached. -/
theorem returnValue_performs {value : IntExpr} {pos : Position} {index : Nat}
    (fresh : ctx.probing = .fresh) (isResult : ctx.result = result.type)
    (spares : Spares ctx.isStatic scope value.loads) (alive : s.frame.alive = true)
    (laid : Laid ctx.isStatic scope scopes s)
    (run : codeFrom ctx pos index (value.ops ++ [.returnValue]) s = .ok () t) :
    Performs ctx result bound scope scope scopes
      (fun env => do
        return .returned (result.wrap (← value.eval ctx.config.narrowReinterpretation env)))
      s t := by
  obtain ⟨u, generated, returning⟩ := codeFrom_append_eq_ok.mp run
  obtain ⟨-, v, ran, rfl⟩ := codeFrom_singleton_eq_ok.mp returning
  simp only [Op.body, returnValue] at ran
  obtain ⟨-, run⟩ := check_eq_ok.mp ran
  obtain ⟨_, v₁, coerced, run⟩ := bind_eq_ok.mp run
  obtain ⟨_, v₂, popping, emitted⟩ := bind_eq_ok.mp run
  rw [isResult] at coerced emitted
  obtain ⟨env₀, store₀, holds₀⟩ := laid.exists_holds
  obtain ⟨_, -, computes₀⟩ :=
    IntExpr.converted_computes fresh spares alive laid generated coerced holds₀
  obtain ⟨rest, -, popped⟩ := pop_emits popping
  have terminal : (Opcode.returnOf result.type).isTerminal = true := by cases result <;> rfl
  obtain ⟨marks, shapesEq, -⟩ := emit_ends terminal emitted
  have laidAfter := Laid.stable.emits popped computes₀.keeps
  have first : Writes [] s v₁ := Writes.of_executes computes₀.toExecutes
  obtain ⟨second, nothing⟩ : Writes [] v₁ v₂ ∧ _ := Writes.of_emits popped
  have third : Writes [] v₂ v := ⟨Later.of_shapes marks.nextLabel_eq shapesEq, marks.code_eq⟩
  have upTo := first.trans second (by simp)
  have performs : Performs ctx result bound scope scope scopes
      (fun env => do
        return .returned (result.wrap (← value.eval ctx.config.narrowReinterpretation env)))
      { s with depth := s.depth } v := by
    refine ⟨upTo.trans third (by simp), laidAfter.of_eq marks.locals_eq marks.scopes_eq
      marks.probed_eq (third.later.shapesBelow laidAfter.shapesBelow (by simp)),
      fun env store goesOn => ?_⟩
    obtain ⟨n, isValue, computes⟩ :=
      IntExpr.converted_computes fresh spares alive laid generated coerced goesOn.1
    refine ⟨.returned (result.wrap n), by simp [isValue], ?_⟩
    rw [upTo.written_trans third, first.written_trans second, nothing, marks.written_eq,
      List.append_nil]
    exact ⟨result.contains_wrap n, Takes.returned rfl computes.runs (result.category_value _)⟩
  exact performs.operation _

end

/-! ## Control flow -/

/-- What is written for a condition goes to the target where the condition fails,
and falls through where it holds. -/
structure Splits (ctx : Context) (scope : List (String × IntType)) (scopes : List Nat)
    (verdict : IntEnv → Option Bool) (target : Label) (s t : State) : Prop
    extends Writes [target] s t where
  laid : Laid ctx.isStatic scope scopes t
  test : ∀ ⦃env store⦄, Holds ctx.isStatic scope env store → ∃ holds, verdict env = some holds ∧
    (holds = false → Takes (written s t) store 0 (.exits (some target) store) ∧
      (t.shape? target).isSome = true) ∧
    (holds = true → Takes (written s t) store 0 (.exits none store) ∧ t.frame.alive = true)

/-- A condition that is decided in every environment. -/
def DecidedIn (ctx : Context) (scope : List (String × IntType)) (scopes : List Nat)
    (cond : Branch) (verdict : IntEnv → Option Bool) : Prop :=
  ∀ ⦃env store⦄, Holds ctx.isStatic scope env store →
    Deciding (laying store ctx.isStatic scope scopes) cond ((verdict env).map (·, []))

/-- A body that performs its statements in a scope of its own. -/
def PerformedIn (ctx : Context) (result : IntType) (bound : Nat)
    (scope inner : List (String × IntType)) (scopes : List Nat) (body : Gen Unit)
    (exec : IntEnv → Option IntOutcome) : Prop :=
  ∀ ⦃s t⦄, s.frame.alive = true →
    Laid ctx.isStatic scope ((layout ctx.isStatic scope).length :: scopes) s →
    body s = .ok () t →
    Performs ctx result bound scope (inner ++ scope)
      ((layout ctx.isStatic scope).length :: scopes) exec s t

section

variable {ctx : Context} {result : IntType} {bound : Nat}
variable {scope inner inner' : List (String × IntType)} {scopes : List Nat}
variable {exec exec' : IntEnv → Option IntOutcome} {s t u v w : State}
variable {cond : Branch} {verdict : IntEnv → Option Bool} {body otherwise : Gen Unit}
variable {target : Label}

theorem DecidedIn.splits (decided : DecidedIn ctx scope scopes cond verdict)
    (alive : s.frame.alive = true) (laid : Laid ctx.isStatic scope scopes s)
    (known : target ∈ s.old) (run : cond false target s = .ok () t) :
    Splits ctx scope scopes verdict target s t := by
  obtain ⟨env₀, store₀, holds₀⟩ := laid.exists_holds
  obtain ⟨_, -, decides₀⟩ := decided holds₀ alive laid known run
  refine ⟨Writes.of_executes decides₀.toExecutes, decides₀.keeps, fun env store holds => ?_⟩
  obtain ⟨_, isOutcome, decides⟩ := decided holds alive laid known run
  obtain ⟨sense, isVerdict, rfl⟩ := Option.map_eq_some_iff.mp isOutcome
  have takes : Takes (written s t) store 0 (.exits _ store) := Takes.of_runs decides.runs
  refine ⟨sense, isVerdict, ?_, ?_⟩
  · rintro rfl
    exact ⟨by simpa using takes, decides.marked rfl⟩
  · rintro rfl
    refine ⟨by simpa using takes, ?_⟩
    by_contra dead
    exact absurd (decides.dead (by simpa using dead)) (by simp)

theorem PerformedIn.inScope (performed : PerformedIn ctx result bound scope inner scopes body exec)
    (alive : s.frame.alive = true) (laid : Laid ctx.isStatic scope scopes s)
    (run : Gen.inScope body s = .ok () t) :
    Performs ctx result bound scope scope scopes (Performs.leavingScope exec) s t :=
  Performs.inScope (fun _ ran => performed (s := s.entered) alive laid.entered ran) run

theorem alive_of_place (run : place ctx target s = .ok () t)
    (reached : s.frame.alive = true ∨ (s.shape? target).isSome = true) :
    t.frame.alive = true := by
  by_contra dead
  obtain ⟨deadBefore, unmarked⟩ := place_dead run (by simpa using dead)
  simp [deadBefore, unmarked] at reached

/-- A body that is generated where the position can be reached. -/
theorem PerformedIn.part (performed : PerformedIn ctx result bound scope inner scopes body exec)
    (laid : Laid ctx.isStatic scope scopes s)
    (run : whenAlive (Gen.inScope body) s = .ok () t) :
    Writes [] s t ∧ Laid ctx.isStatic scope scopes t ∧ (s.frame.alive = true →
      Performs ctx result bound scope scope scopes (Performs.leavingScope exec) s t) := by
  rcases whenAlive_eq_ok.mp run with ⟨alive, ran⟩ | ⟨dead, rfl⟩
  · have performs := performed.inScope alive laid ran
    exact ⟨performs.toWrites, performs.laid, fun _ => performs⟩
  · exact ⟨Writes.refl s, laid, by simp [dead]⟩

/-- A body after which control goes to a label. -/
theorem PerformedIn.partTo (performed : PerformedIn ctx result bound scope inner scopes body exec)
    (laid : Laid ctx.isStatic scope scopes s) (known : target ∈ s.old)
    (bodyRun : whenAlive (Gen.inScope body) s = .ok () u)
    (jumpRun : whenAlive (jump ctx .goto target) u = .ok () t) :
    Writes [target] s t ∧ Laid ctx.isStatic scope scopes t ∧ (s.frame.alive = true →
      ∀ ⦃env store⦄, Holds ctx.isStatic scope env store →
        ∃ outcome, Performs.leavingScope exec env = some outcome ∧
          outcome.Realized result bound
            (fun env store => Holds ctx.isStatic scope env store ∧
              (t.shape? target).isSome = true)
            (Takes (written s t) store) 1 (some target)) := by
  obtain ⟨writes, laidU, performs⟩ := performed.part laid bodyRun
  have writes := writes.mono (List.nil_subset [target])
  rcases whenAlive_eq_ok.mp jumpRun with ⟨alive, jumped⟩ | ⟨dead, rfl⟩
  · obtain ⟨jumping, code⟩ := Writes.of_jump jumped
    refine ⟨writes.trans jumping fun _ => .inl,
      Laid.stable.jump (writes.later.old_subset known) jumped laidU,
      fun aliveS env store holds => ?_⟩
    obtain ⟨outcome, isOutcome, realized⟩ := (performs aliveS).realizes ⟨holds, aliveS⟩
    refine ⟨outcome, isOutcome, ?_⟩
    rw [writes.written_trans jumping, code]
    refine (realized.jump target).weaken fun env after goesOn => ⟨goesOn.1, ?_⟩
    rw [(jump_marks jumped).2.2.2.shape_self]
    rfl
  · refine ⟨writes, laidU, fun aliveS env store holds => ?_⟩
    obtain ⟨outcome, isOutcome, realized⟩ := (performs aliveS).realizes ⟨holds, aliveS⟩
    exact ⟨outcome, isOutcome, realized.of_ended (fun _ _ goesOn => by
      simp [goesOn.2] at dead) 1 (some target)⟩

theorem ifThen_performs (decided : DecidedIn ctx scope scopes cond verdict)
    (performed : PerformedIn ctx result bound scope inner scopes body exec)
    (alive : s.frame.alive = true) (laid : Laid ctx.isStatic scope scopes s)
    (run : ifThen ctx cond body s = .ok () t) :
    Performs ctx result bound scope scope scopes
      (fun env => do
        if ← verdict env then Performs.leavingScope exec env else return .next env) s t := by
  obtain ⟨stop, s₁, allocated, run⟩ := bind_eq_ok.mp run
  obtain ⟨_, s₂, tested, run⟩ := bind_eq_ok.mp run
  obtain ⟨_, s₃, bodyRun, placed⟩ := bind_eq_ok.mp run
  have opens := newLabel_opens allocated
  obtain ⟨opening, nothing⟩ : Writes [] s s₁ ∧ _ := Writes.of_newLabel allocated
  have splits := decided.splits (opens.frame_eq ▸ alive) (Laid.stable.newLabel allocated laid)
    opens.old tested
  obtain ⟨bodyWrites, bodyLaid, performs⟩ := performed.part splits.laid bodyRun
  obtain ⟨placing, label⟩ := Writes.of_place placed
  have upTo₃ := splits.toWrites.trans bodyWrites (by simp)
  have inside := upTo₃.trans placing fun _ => .inl
  have code : written s t = written s₁ s₂ ++ written s₂ s₃ ++ [.label stop] := by
    rw [opening.written_trans inside, nothing, upTo₃.written_trans placing, label,
      splits.written_trans bodyWrites, List.nil_append]
  have whole : Writes [] s t := opening.trans inside fun label mem => by
    obtain rfl := List.mem_singleton.mp mem
    exact .inr ⟨by simpa using opens.fresh, opens.old⟩
  refine ⟨whole, Laid.stable.place (upTo₃.later.old_subset opens.old) placed bodyLaid,
    fun env store ⟨holds, _⟩ => ?_⟩
  rw [code]
  obtain ⟨verdict, isVerdict, fails, succeeds⟩ := splits.test holds
  cases verdict with
  | false =>
      obtain ⟨takes, marked⟩ := fails rfl
      refine ⟨.next env, by simp [isVerdict], store, ⟨holds, ?_⟩, (takes.leave trivial _).rejoin⟩
      exact alive_of_place placed (.inr (bodyWrites.later.isSome_shape marked))
  | true =>
      obtain ⟨takes, alive₂⟩ := succeeds rfl
      obtain ⟨outcome, isOutcome, realized⟩ := (performs alive₂).realizes ⟨holds, alive₂⟩
      refine ⟨outcome, by simp [isVerdict, isOutcome], ?_⟩
      exact ((realized.before takes).through (.of_label stop)).weaken fun _ _ goesOn =>
        ⟨goesOn.1, alive_of_place placed (.inl goesOn.2)⟩

theorem ifElse_performs (decided : DecidedIn ctx scope scopes cond verdict)
    (performed : PerformedIn ctx result bound scope inner scopes body exec)
    (performedElse : PerformedIn ctx result bound scope inner' scopes otherwise exec')
    (alive : s.frame.alive = true) (laid : Laid ctx.isStatic scope scopes s)
    (run : ifElse ctx cond body otherwise s = .ok () t) :
    Performs ctx result bound scope scope scopes
      (fun env => do
        if ← verdict env then Performs.leavingScope exec env
        else Performs.leavingScope exec' env) s t := by
  obtain ⟨stop, s₁, allocated, run⟩ := bind_eq_ok.mp run
  obtain ⟨other, s₂, allocatedOther, run⟩ := bind_eq_ok.mp run
  obtain ⟨_, s₃, tested, run⟩ := bind_eq_ok.mp run
  obtain ⟨_, s₄, bodyRun, run⟩ := bind_eq_ok.mp run
  obtain ⟨_, s₅, jumpRun, run⟩ := bind_eq_ok.mp run
  obtain ⟨_, s₆, placedOther, run⟩ := bind_eq_ok.mp run
  obtain ⟨_, s₇, elseRun, placedStop⟩ := bind_eq_ok.mp run
  obtain ⟨opening, nothing, frameEq, fresh⟩ : Writes [] s s₂ ∧ _ :=
    Writes.of_newLabels allocated allocatedOther
  have stopOld : stop ∈ s₂.old := (fresh stop (by simp)).2
  have otherOld : other ∈ s₂.old := (fresh other (by simp)).2
  have laid₂ := Laid.stable.newLabel allocatedOther (Laid.stable.newLabel allocated laid)
  have splits := decided.splits (frameEq ▸ alive) laid₂ otherOld tested
  have old₃ := splits.later.old_subset
  obtain ⟨bodyWrites, bodyLaid, performs⟩ :=
    performed.partTo splits.laid (old₃ stopOld) bodyRun jumpRun
  have old₅ := old₃.trans bodyWrites.later.old_subset
  obtain ⟨placingOther, labelOther⟩ := Writes.of_place placedOther
  have laid₆ := Laid.stable.place (old₅ otherOld) placedOther bodyLaid
  obtain ⟨elseWrites, elseLaid, elsePerforms⟩ := performedElse.part laid₆ elseRun
  obtain ⟨placingStop, labelStop⟩ := Writes.of_place placedStop
  -- Everything from the condition on records shapes for the two new labels only.
  have upTo₃ := splits.toWrites.mono (by simp : [other] ⊆ [other, stop])
  have upTo₅ := upTo₃.trans bodyWrites (by simp)
  have upTo₆ := upTo₅.trans placingOther (by simp)
  have upTo₇ := upTo₆.trans elseWrites (by simp)
  have inside := upTo₇.trans placingStop (by simp)
  have whole : Writes [] s t := opening.trans inside fun label mem =>
    .inr (fresh label (by simpa [or_comm] using mem))
  have code : written s t = written s₂ s₃ ++ written s₃ s₅ ++ [.label other] ++ written s₆ s₇ ++
      [.label stop] := by
    rw [opening.written_trans inside, nothing, upTo₇.written_trans placingStop, labelStop,
      upTo₆.written_trans elseWrites, upTo₅.written_trans placingOther, labelOther,
      upTo₃.written_trans bodyWrites, List.nil_append]
  refine ⟨whole, Laid.stable.place (upTo₇.later.old_subset stopOld) placedStop elseLaid,
    fun env store ⟨holds, _⟩ => ?_⟩
  rw [code]
  obtain ⟨verdict, isVerdict, fails, succeeds⟩ := splits.test holds
  cases verdict with
  | false =>
      obtain ⟨takes, marked⟩ := fails rfl
      have arrives := (takes.leave trivial (written s₃ s₅)).rejoin
      have alive₆ : s₆.frame.alive = true :=
        alive_of_place placedOther (.inr (bodyWrites.later.isSome_shape marked))
      obtain ⟨outcome, isOutcome, realized⟩ := (elsePerforms alive₆).realizes ⟨holds, alive₆⟩
      refine ⟨outcome, by simp [isVerdict, isOutcome], ?_⟩
      exact ((realized.before arrives).through (.of_label stop)).weaken fun _ _ goesOn =>
        ⟨goesOn.1, alive_of_place placedStop (.inl goesOn.2)⟩
  | true =>
      obtain ⟨takes, alive₃⟩ := succeeds rfl
      obtain ⟨outcome, isOutcome, realized⟩ := performs alive₃ holds
      refine ⟨outcome, by simp [isVerdict, isOutcome], ?_⟩
      have left := ((realized.before takes).leave [.label other]).leave (written s₆ s₇)
      refine left.rejoin.fewer.weaken fun _ _ ⟨holdsAfter, marked⟩ => ⟨holdsAfter, ?_⟩
      have kept := (placingOther.trans elseWrites (by simp)).later.isSome_shape marked
      exact alive_of_place placedStop (.inr kept)

theorem whileLoop_performs (decided : DecidedIn ctx scope scopes cond verdict)
    (performed : PerformedIn ctx result bound scope inner scopes body exec)
    (alive : s.frame.alive = true) (laid : Laid ctx.isStatic scope scopes s)
    (run : whileLoop ctx cond body s = .ok () t) :
    Performs ctx result bound scope scope scopes
      (rounds verdict (Performs.leavingScope exec) bound) s t := by
  obtain ⟨start, s₁, allocated, run⟩ := bind_eq_ok.mp run
  obtain ⟨stop, s₂, allocatedStop, run⟩ := bind_eq_ok.mp run
  obtain ⟨_, s₃, placedStart, run⟩ := bind_eq_ok.mp run
  obtain ⟨_, s₄, tested, run⟩ := bind_eq_ok.mp run
  obtain ⟨_, s₅, bodyRun, placedStop⟩ := bind_eq_ok.mp run
  obtain ⟨opening, nothing, frameEq, fresh⟩ : Writes [] s s₂ ∧ _ :=
    Writes.of_newLabels allocated allocatedStop
  have startOld : start ∈ s₂.old := (fresh start (by simp)).2
  have stopOld : stop ∈ s₂.old := (fresh stop (by simp)).2
  have laid₂ := Laid.stable.newLabel allocatedStop (Laid.stable.newLabel allocated laid)
  obtain ⟨placingStart, labelStart⟩ := Writes.of_place placedStart
  have laid₃ := Laid.stable.place startOld placedStart laid₂
  have old₃ := placingStart.later.old_subset
  have alive₂ : s₂.frame.alive = true := frameEq ▸ alive
  have splits := decided.splits (alive_of_place placedStart (.inl alive₂)) laid₃ (old₃ stopOld)
    tested
  have old₄ := old₃.trans splits.later.old_subset
  obtain ⟨u, bodyRun, jumpRun⟩ : ∃ u, whenAlive (Gen.inScope body) s₄ = .ok () u ∧
      whenAlive (jump ctx .goto start) u = .ok () s₅ := by
    rcases whenAlive_eq_ok.mp bodyRun with ⟨alive₄, ran⟩ | ⟨dead, rfl⟩
    · obtain ⟨_, u, ran, jumpRun⟩ := bind_eq_ok.mp ran
      exact ⟨u, whenAlive_eq_ok.mpr (.inl ⟨alive₄, ran⟩), jumpRun⟩
    · exact ⟨s₄, whenAlive_eq_ok.mpr (.inr ⟨dead, rfl⟩), whenAlive_eq_ok.mpr (.inr ⟨dead, rfl⟩)⟩
  obtain ⟨bodyWrites, bodyLaid, performs⟩ :=
    performed.partTo splits.laid (old₄ startOld) bodyRun jumpRun
  obtain ⟨placingStop, labelStop⟩ := Writes.of_place placedStop
  have upTo₃ := placingStart.mono (by simp : [start] ⊆ [start, stop])
  have upTo₄ := upTo₃.trans splits.toWrites (by simp)
  have upTo₅ := upTo₄.trans bodyWrites (by simp)
  have inside := upTo₅.trans placingStop (by simp)
  have whole : Writes [] s t := opening.trans inside fun label mem => .inr (fresh label mem)
  have code : written s t =
      .label start :: (written s₃ s₄ ++ written s₄ s₅ ++ [.label stop]) := by
    rw [opening.written_trans inside, nothing, upTo₅.written_trans placingStop, labelStop,
      upTo₄.written_trans bodyWrites, upTo₃.written_trans splits.toWrites, labelStart]
    simp
  have round : RealizesRound result bound (Holds ctx.isStatic scope) (GoesOn ctx.isStatic scope t)
      verdict (Performs.leavingScope exec) start stop (written s₃ s₄ ++ written s₄ s₅) := by
    intro env store holds
    obtain ⟨verdict, isVerdict, fails, succeeds⟩ := splits.test holds
    refine ⟨verdict, isVerdict, fun failed => ?_, fun succeeded => ?_⟩
    · obtain ⟨takes, marked⟩ := fails failed
      have kept := bodyWrites.later.isSome_shape marked
      exact ⟨⟨holds, alive_of_place placedStop (.inr kept)⟩, takes.leave trivial _⟩
    · obtain ⟨takes, alive₄⟩ := succeeds succeeded
      obtain ⟨outcome, isOutcome, realized⟩ := performs alive₄ holds
      exact ⟨outcome, isOutcome, (realized.before takes).weaken fun _ _ => And.left⟩
  refine ⟨whole, Laid.stable.place (upTo₅.later.old_subset stopOld) placedStop bodyLaid,
    fun env store ⟨holds, _⟩ => ?_⟩
  rw [code]
  exact round.loop holds

end

end JvmAssembler
