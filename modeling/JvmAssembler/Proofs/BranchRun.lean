import Mathlib
import JvmAssembler.Proofs.CodeRun

/-!
# What the code of conditions does

A condition's branch goes to its target exactly if the condition has the asked
sense.  Leaves take the values of their operands from the stack; the parts of a
junction are executed up to the first one that decides it.
-/

namespace JvmAssembler

/-! ## Comparisons -/

/-- The number that an `int` or a `long` holds. -/
def Value.integer? : Value → Option Int
  | .int value => some value.toInt
  | .long value => some value.toInt
  | _ => none

/-- The truth of a `boolean`. -/
def Value.truth? : Value → Option Bool
  | .int value => some (value != 0)
  | _ => none

def Value.isNull? : Value → Option Bool
  | .reference value => some (value = .null)
  | _ => none

theorem Value.exists_integer {value : Value}
    (integral : value.category = .int ∨ value.category = .long) :
    ∃ n, value.integer? = some n := by
  cases value with
  | int a => exact ⟨_, rfl⟩
  | long a => exact ⟨_, rfl⟩
  | _ => simp [Value.category] at integral

/-- The result of a comparison.  Integers compare as numbers, references by
identity; `nan` is the result for floating-point data that have no order. -/
def RelOp.compare? (op : RelOp) (nan : Bool) : Value → Value → Option Bool
  | .float a, .float b => some (((a.value.order? b.value).map op.holds).getD nan)
  | .double a, .double b => some (((a.value.order? b.value).map op.holds).getD nan)
  | .reference a, .reference b => if op.isEquality then some ((a = b) = (op = .eq)) else none
  | left, right =>
      left.integer?.bind fun m => right.integer?.map fun n => op.holds (compare m n)

namespace RelOp

theorem compare?_of_integers {op : RelOp} {nan : Bool} {left right : Value} {m n : Int}
    (isLeft : left.integer? = some m) (isRight : right.integer? = some n) :
    op.compare? nan left right = some (op.holds (compare m n)) := by
  cases left <;> cases right <;> simp_all [compare?, Value.integer?]

theorem compare?_negate (op : RelOp) (nan : Bool) (left right : Value) :
    op.negate.compare? (!nan) left right = (op.compare? nan left right).map not := by
  have order (o : Option Ordering) :
      (o.map op.negate.holds).getD (!nan) = !(o.map op.holds).getD nan := by
    cases o <;> simp [holds_negate]
  cases left <;> cases right <;>
    simp [compare?, Value.integer?, holds_negate, order]
  cases op <;> simp [isEquality, negate]

/-- The comparison that a branch with this sense makes holds exactly if the
outcome has the sense. -/
theorem compare?_of_sense {op : RelOp} {nan verdict : Bool} {left right : Value} (sense : Bool)
    (result : op.compare? nan left right = some verdict) :
    (if sense then op else op.negate).compare? (if sense then nan else !nan) left right =
      some (decide (verdict = sense)) := by
  cases sense with
  | true => simpa using result
  | false =>
      have negated := compare?_negate op nan left right
      rw [result] at negated
      cases verdict <;> simpa using negated

/-- The types that a comparison relates without boxing. -/
def relates (op : RelOp) : JType → JType → Bool
  | .primitive p, .primitive q =>
      (p.isIntegral && q.isIntegral) || (p = .float && q = .float) || (p = .double && q = .double) ||
        (p = .boolean && q = .boolean && op.isEquality)
  | left, right => left.isReference && right.isReference && op.isEquality

/-- The result for operands that are not numbers is the one the operator has on
unequal numbers, if it tests equality. -/
def Consistent (op : RelOp) (nan : Bool) : Prop :=
  op.isEquality = true → nan = decide (op = .ne)

instance (op : RelOp) (nan : Bool) : Decidable (op.Consistent nan) :=
  inferInstanceAs (Decidable (_ → _))

theorem Consistent.of_sense {op : RelOp} {nan : Bool} (consistent : op.Consistent nan)
    (sense : Bool) :
    (if sense then op else op.negate).Consistent (if sense then nan else !nan) := by
  cases sense with
  | true => exact consistent
  | false =>
      intro equality
      have written := consistent (by simpa using equality)
      cases op <;> simp_all [negate, isEquality]

/-- The order that stands for "not a number" gives the wanted result. -/
theorem Consistent.holds_low {op : RelOp} {nan : Bool} (consistent : op.Consistent nan) :
    op.holds (if (decide (op = .lt) || decide (op = .le)) == nan then .lt else .gt) = nan := by
  cases op <;> cases nan <;> simp_all [Consistent, isEquality, holds]

end RelOp

@[simp]
theorem compare_signOf (o : Ordering) : compare (signOf o).toInt 0 = o := by
  cases o <;> rfl

namespace Gen

variable {setting : Setting} {loads loads' : List Instr} {sense : Bool}
variable {s t u : State} {ctx : Context} {target : Label} {code : Gen Unit} {pos : Position}

/-! ## Operands -/

theorem conversion_self (ctx : Context) (ty : JType) : conversion ctx ty ty = .identity := by
  simp [conversion, Conversion.classify]

/-- The conversion between two types turns a value into one that is related to
it. -/
def Converts (ctx : Context) (setting : Setting) (source target : JType)
    (related : Value → Value → Prop) : Prop :=
  ∀ ⦃value⦄, value.category = source.category → ∃ converted,
    Runs setting ((conversion ctx source target).instrs source target) [value] [] none
      [converted] ∧ related value converted

theorem unconverted_runs (ctx : Context) (ty : JType) (value : Value) :
    Runs setting ((conversion ctx ty ty).instrs ty ty) [value] [] none [value] := by
  rw [conversion_self]
  exact Runs.nil [value]

theorem converts_self (ctx : Context) (ty : JType) : Converts ctx setting ty ty Eq :=
  fun value _ => ⟨value, unconverted_runs ctx ty value, rfl⟩

theorem Computes.coerced {source target : JType} {value converted : Value} (stable : Stable setting.inv)
    (computes : Computes setting source value loads s u)
    (converts : Runs setting ((conversion ctx source target).instrs source target) [value] [] none
      [converted])
    (run : coerceTop ctx target u = .ok () t) :
    Computes setting target converted loads s t := by
  obtain ⟨found, rest, stackEq, -, emits⟩ := coerceTop_emits run
  rw [computes.stack_eq] at stackEq
  obtain ⟨rfl, rfl⟩ := List.cons.inj stackEq
  have executes : Executes setting [] [value] [] none [converted] u t :=
    Executes.of_emits stable computes.keeps emits converts
  have whole := computes.toExecutes.trans executes (by simp)
  rw [List.append_nil] at whole
  exact ⟨whole, emits.alive_eq.trans computes.alive, emits.stack_eq⟩

theorem Computes.uncoerced {ty : JType} {value : Value} (stable : Stable setting.inv)
    (computes : Computes setting ty value loads s u)
    (run : coerceTop ctx ty u = .ok () t) : Computes setting ty value loads s t :=
  computes.coerced stable (unconverted_runs ctx ty value) run

theorem Computes.pair {leftType rightType : JType} {left right : Value}
    (first : Computes setting leftType left loads s u)
    (second : Computes setting rightType right loads' u t) :
    Executes setting [] [] (loads ++ loads') none [right, left] s t ∧
      t.frame.stack = rightType :: leftType :: s.frame.stack := by
  constructor
  · exact first.toExecutes.trans (second.toExecutes.frame [left]) (by simp)
  · rw [second.stack_eq, first.stack_eq]

theorem Yields.probe_executes {operand : Operand} {type? : Option JType} {found : JType}
    {result? : Option (Value × List Instr)}
    (yields : Yields ctx setting operand type? result?) (alive : s.frame.alive = true)
    (holds : setting.inv s) (run : probe ctx operand s = .ok found t) :
    type? = some found ∧ Executes setting [] [] [] none [] s t ∧ t.frame = s.frame := by
  obtain ⟨isType, keeps⟩ := yields.probed alive holds run
  obtain ⟨frameEq, outputEq, -⟩ := probe_ok run
  have unwritten : written s t = [] := by simp [written, State.code, outputEq]
  refine ⟨isType, ⟨Later.of_shapes (by rw [outputEq]) (by rw [frameEq]), ?_, keeps, ?_⟩, frameEq⟩
  · rw [unwritten, State.code, outputEq, List.append_nil]
    rfl
  · rw [unwritten]
    exact Runs.nil []

/-! ## Leaves -/

theorem jump_executes {op : Opcode} {test : Test} {operands : List Value} {taken : Bool}
    (stable : Stable setting.inv) (holds : setting.inv s) (known : target ∈ s.old) (isTest : op.test? = some test)
    (applied : ∀ stack, test.apply (operands ++ stack) = some (taken, stack))
    (run : jump ctx op target s = .ok () t) :
    Executes setting [target] operands [] (if taken then some target else none) [] s t ∧
      (t.shape? target).isSome = true ∧ t.frame.alive = (s.frame.alive && op != .goto) := by
  obtain ⟨marks, -, alive, records⟩ := jump_marks run
  refine ⟨⟨marks.later records, marks.code_eq, stable.jump known run holds, ?_⟩, ?_, alive⟩
  · rw [marks.written_eq]
    exact Runs.of_branch isTest applied
  · rw [records.shape_self]
    rfl

/-- A leaf computes its operands, takes them from the simulated stack, and
branches on them. -/
theorem Executes.decides {v : State} {op : Opcode} {test : Test} {operands : List Value}
    {verdict : Bool} {rest : List JType} (stable : Stable setting.inv)
    (executes : Executes setting [] [] loads none operands s u) (alive : u.frame.alive = true)
    (popped : Emits u v [] rest) (known : target ∈ s.old) (isTest : op.test? = some test)
    (isConditional : op ≠ .goto)
    (applied : ∀ stack, test.apply (operands ++ stack) = some (decide (verdict = sense), stack))
    (run : jump ctx op target v = .ok () t) :
    Decides setting (verdict, loads) sense target s t := by
  have popping : Executes setting [] operands [] none operands u v :=
    Executes.of_emits stable executes.keeps popped (Runs.nil operands)
  have before := executes.trans popping (by simp)
  obtain ⟨branching, marked, aliveEq⟩ : Executes setting [target] operands []
      (if decide (verdict = sense) then some target else none) [] v t ∧ _ ∧ _ :=
    jump_executes stable before.keeps (before.old known) isTest applied run
  have whole := (before.mono (List.nil_subset [target])).trans branching (by simp)
  simp only [List.append_nil, decide_eq_true_eq] at whole
  refine ⟨whole, fun dead => ?_, fun _ => marked⟩
  rw [aliveEq, popped.alive_eq, alive] at dead
  simp [isConditional] at dead

theorem goto_executes (stable : Stable setting.inv) (holds : setting.inv s) (known : target ∈ s.old)
    (run : jump ctx .goto target s = .ok () t) :
    Executes setting [target] [] [] (some target) [] s t ∧ (t.shape? target).isSome = true := by
  have always : ∀ stack, Test.always.apply ([] ++ stack) = some (true, stack) := fun _ => rfl
  obtain ⟨branching, marked, -⟩ := jump_executes stable holds known rfl always run
  exact ⟨branching, marked⟩

theorem constBranch_deciding (stable : Stable setting.inv) (value : Bool) :
    Deciding setting (constBranch ctx value) (some (value, [])) := by
  intro s t sense target alive holds known run
  refine ⟨(value, []), rfl, ?_⟩
  unfold constBranch at run
  by_cases same : value = sense
  · rw [if_pos same] at run
    obtain ⟨branching, marked⟩ := goto_executes stable holds known run
    refine ⟨?_, fun _ => same, fun _ => marked⟩
    rw [if_pos same]
    exact branching
  · rw [if_neg same] at run
    obtain ⟨-, rfl⟩ := pure_eq_ok.mp run
    refine ⟨?_, fun dead => ?_, fun taken => absurd taken same⟩
    · rw [if_neg same]
      exact Executes.refl holds []
    · simp [alive] at dead

theorem holds_zero (n : Int32) (equal : Bool) :
    (if equal then RelOp.eq else RelOp.ne).holds (compare n.toInt 0) = ((n == 0) == equal) := by
  have zero : (compare n.toInt 0 == .eq) = (n == 0) := by
    rw [Bool.eq_iff_iff, beq_iff_eq, beq_iff_eq, compare_eq_iff_eq, ← Int32.toInt_zero,
      Int32.toInt_inj]
  cases equal <;> simp [RelOp.holds, bne, zero]

theorem eq_boolean_of_isImplicit {ty : JType} (primitive : ty.isPrimitive = true)
    (implicit : (conversion ctx ty .boolean).isImplicit = true) : ty = .boolean := by
  obtain ⟨p, rfl⟩ : ∃ p, ty = .primitive p := by
    cases ty <;> first | exact ⟨_, rfl⟩ | contradiction
  cases p <;> simp [conversion, Conversion.classify, Conversion.ofPrimitives, Conversion.isImplicit,
    JType.isVoid] at implicit ⊢

theorem truthBranch_deciding {type? : Option JType} {result? : Option (Value × List Instr)}
    (stable : Stable setting.inv) (wanted : Bool)
    (yields : Yields ctx setting ⟨pos, code⟩ type? result?)
    (primitive : ∀ ty, type? = some ty → ty.isPrimitive = true) :
    Deciding setting (truthBranch ctx wanted code)
      (result?.bind fun result => result.1.truth?.map fun holds => (holds == wanted, result.2)) := by
  intro s t sense target alive holds known run
  obtain ⟨found, u, valued, run⟩ := bind_eq_ok.mp run
  obtain ⟨result, typed, evaluated, category, computes⟩ := yields.valued alive holds valued
  obtain ⟨_, v, coerced, run⟩ := bind_eq_ok.mp run
  obtain rfl : found = .boolean := by
    obtain ⟨source, rest, stackEq, implicit, -⟩ := coerceTop_emits coerced
    obtain ⟨rfl, -⟩ := List.cons.inj (computes.stack_eq.symm.trans stackEq)
    exact eq_boolean_of_isImplicit (primitive found typed) implicit
  obtain ⟨value, loads⟩ := result
  cases value <;> simp [Value.category, Primitive.category] at category
  rename_i n
  refine ⟨((n != 0) == wanted, loads), by simp [evaluated, Value.truth?], ?_⟩
  have computes := computes.uncoerced stable coerced
  obtain ⟨_, w, popping, run⟩ := bind_eq_ok.mp run
  obtain ⟨rest, -, popped⟩ := pop_emits popping
  -- The branch is the one that compares with zero under this operator.
  have opcode : (if wanted = sense then Opcode.ifne else .ifeq) =
      (if decide (wanted ≠ sense) then RelOp.eq else .ne).zeroBranch := by
    by_cases same : wanted = sense <;> simp [same] <;> rfl
  rw [opcode] at run
  apply computes.toExecutes.decides stable computes.alive popped known (RelOp.test?_zeroBranch _)
    _ _ run
  · split <;> decide
  · intro stack
    simp only [List.singleton_append, Test.apply, holds_zero]
    cases wanted <;> cases sense <;> by_cases isZero : n = 0 <;> simp [isZero]

theorem nullBranch_deciding {operand : Operand} {type? : Option JType}
    {result? : Option (Value × List Instr)} (stable : Stable setting.inv) (wanted : Bool)
    (yields : Yields ctx setting operand type? result?)
    (reference : ∀ ty, type? = some ty → ty.isReference = true) :
    Deciding setting (nullBranch ctx wanted operand)
      (result?.bind fun result => result.1.isNull?.map fun isNull =>
        (isNull == wanted, result.2)) := by
  intro s t sense target alive holds known run
  unfold nullBranch at run
  obtain ⟨found, r, probed, run⟩ := bind_eq_ok.mp run
  obtain ⟨-, run⟩ := check_eq_ok.mp run
  obtain ⟨-, before, frameEq⟩ := yields.probe_executes alive holds probed
  obtain ⟨_, u, valued, run⟩ := bind_eq_ok.mp run
  obtain ⟨⟨value, loads⟩, typed, evaluated, category, computes⟩ :=
    yields.valued (frameEq ▸ alive) before.keeps valued
  rw [JType.category_of_isReference (reference _ typed)] at category
  cases value <;> simp [Value.category] at category
  rename_i object
  refine ⟨(decide (object = .null) == wanted, loads), by simp [evaluated, Value.isNull?], ?_⟩
  obtain ⟨_, v, popping, run⟩ := bind_eq_ok.mp run
  obtain ⟨rest, -, popped⟩ := pop_emits popping
  have isTest : (if wanted = sense then Opcode.ifnull else .ifnonnull).test? =
      some (.null (decide (wanted = sense))) := by
    by_cases same : wanted = sense <;> simp [same] <;> rfl
  have executes := before.trans computes.toExecutes (by simp)
  rw [List.nil_append] at executes
  apply executes.decides stable computes.alive popped known isTest _ _ run
  · split <;> decide
  · intro stack
    simp only [List.singleton_append, Test.apply]
    cases wanted <;> cases sense <;> by_cases isNull : object = .null <;> simp [isNull]

/-- Two operands on the stack are compared by an instruction that leaves their
order, and the order is tested against zero. -/
theorem comparison_decides {v w : State} {code : Opcode} {calculation : Calculation} {op : RelOp}
    {left right : Value} {order : Ordering} {verdict : Bool} {rest : List JType}
    (stable : Stable setting.inv) (executes : Executes setting [] [] loads none [right, left] s u)
    (alive : u.frame.alive = true) (known : target ∈ s.old) (popped : Emits u v [] rest)
    (isCalculation : code.calculation? = some calculation)
    (applied : ∀ stack, calculation.apply (right :: left :: stack) =
      some (.int (signOf order) :: stack))
    (plain : (Instr.op code).isPlain = true) (noLoad : (Instr.op code).isLoad = false)
    (emitted : emitOp ctx code v = .ok () w) (result : op.holds order = decide (verdict = sense))
    (run : jump ctx op.zeroBranch target w = .ok () t) :
    Decides setting (verdict, loads) sense target s t := by
  have emits := popped.trans (emit_emits plain emitted)
  have comparing : Executes setting [] [right, left] [] none [.int (signOf order)] u w := by
    apply Executes.of_emits stable executes.keeps emits
    exact Runs.of_calculation isCalculation noLoad applied
  have whole := executes.trans comparing (by simp)
  rw [List.append_nil] at whole
  apply whole.decides stable (emits.alive_eq.trans alive) (Emits.refl w) known
    (RelOp.test?_zeroBranch op) _ _ run
  · cases op <;> decide
  · intro stack
    simp [Test.apply, result]

theorem holds_getD {op : RelOp} {nan : Bool} (consistent : op.Consistent nan)
    (order : Option Ordering) :
    op.holds (order.getD (if (decide (op = .lt) || decide (op = .le)) == nan then .lt else .gt)) =
      (order.map op.holds).getD nan := by
  cases order with
  | some order => rfl
  | none => exact consistent.holds_low

/-- The instruction that compares values of a type other than `int` leaves an
order on which the branch has the result of the comparison. -/
theorem comparison?_orders {p : Primitive} {op : RelOp} {nan result : Bool} {left right : Value}
    (isLeft : left.category = p.category) (isRight : right.category = p.category)
    (consistent : p = .float ∨ p = .double → op.Consistent nan)
    (compared : op.compare? nan left right = some result)
    {code : Opcode} (isComparison : comparison? p op nan = some code) :
    ∃ calculation order, code.calculation? = some calculation ∧
      (∀ stack, calculation.apply (right :: left :: stack) =
        some (.int (signOf order) :: stack)) ∧ op.holds order = result := by
  cases p with
  | long =>
      cases left <;> cases right <;> simp [Value.category, Primitive.category] at isLeft isRight
      obtain rfl := Option.some.inj isComparison
      exact ⟨_, _, rfl, fun _ => rfl, Option.some.inj compared⟩
  | float =>
      cases left <;> cases right <;> simp [Value.category, Primitive.category] at isLeft isRight
      obtain rfl := Option.some.inj isComparison
      have holds := (holds_getD (consistent (.inl rfl)) _).trans (Option.some.inj compared)
      cases low : (decide (op = .lt) || decide (op = .le)) == nan <;> rw [low] at holds <;>
        exact ⟨_, _, rfl, fun _ => rfl, holds⟩
  | double =>
      cases left <;> cases right <;> simp [Value.category, Primitive.category] at isLeft isRight
      obtain rfl := Option.some.inj isComparison
      have holds := (holds_getD (consistent (.inr rfl)) _).trans (Option.some.inj compared)
      cases low : (decide (op = .lt) || decide (op = .le)) == nan <;> rw [low] at holds <;>
        exact ⟨_, _, rfl, fun _ => rfl, holds⟩
  | _ => simp [comparison?] at isComparison

theorem numericBranch_decides {p : Primitive} {op : RelOp} {nan verdict : Bool}
    {left right : Value} (stable : Stable setting.inv)
    (executes : Executes setting [] [] loads none [right, left] s u)
    (alive : u.frame.alive = true) (known : target ∈ s.old) (promoted : p.isPromoted)
    (isLeft : left.category = p.category) (isRight : right.category = p.category)
    (consistent : p = .float ∨ p = .double → op.Consistent nan)
    (compared : op.compare? nan left right = some (decide (verdict = sense)))
    (run : numericBranch ctx p op nan target u = .ok () t) :
    Decides setting (verdict, loads) sense target s t := by
  obtain ⟨_, v, popping, tested⟩ := bind_eq_ok.mp run
  obtain ⟨-, popped⟩ := popN_emits popping
  cases isComparison : comparison? p op nan with
  | some code =>
      rw [isComparison] at tested
      obtain ⟨_, w, emitted, branching⟩ := bind_eq_ok.mp tested
      obtain ⟨calculation, order, isCalculation, applied, result⟩ :=
        comparison?_orders isLeft isRight consistent compared isComparison
      obtain ⟨plain, effect⟩ := Instr.effect?_comparison isComparison
      exact comparison_decides stable executes alive known popped isCalculation applied plain
        (by simp [Instr.isLoad, effect]) emitted result branching
  | none =>
      rw [isComparison] at tested
      obtain rfl : p = .int := by
        rcases promoted with rfl | rfl | rfl | rfl
        · rfl
        all_goals simp [comparison?] at isComparison
      cases left <;> cases right <;> simp [Value.category, Primitive.category] at isLeft isRight
      apply executes.decides stable alive popped known (RelOp.test?_intBranch op) _ _ tested
      · cases op <;> decide
      · intro stack
        have result := Option.some.inj compared
        simp [Test.apply, ← result]

theorem identityBranch_decides {equal verdict : Bool} {left right : Reference}
    (stable : Stable setting.inv)
    (executes : Executes setting [] [] loads none [.reference right, .reference left] s u)
    (alive : u.frame.alive = true) (known : target ∈ s.old)
    (compared : (decide (left = right) == equal) = decide (verdict = sense))
    (run : identityBranch ctx equal target u = .ok () t) :
    Decides setting (verdict, loads) sense target s t := by
  obtain ⟨_, v, popping, branching⟩ := bind_eq_ok.mp run
  obtain ⟨-, popped⟩ := popN_emits popping
  have isTest : (if equal then Opcode.ifAcmpeq else .ifAcmpne).test? = some (.identity equal) := by
    cases equal <;> rfl
  apply executes.decides stable alive popped known isTest _ _ branching
  · split <;> decide
  · intro stack
    simp [Test.apply, compared]

/-- Promotion of an integral value keeps its number. -/
theorem promotion_converts {p r : Primitive} (integral : p.isIntegral = true)
    (promotes : r = .long ∨ r = .int ∧ p ≠ .long) :
    Converts ctx setting (.primitive p) (.primitive r) fun value promoted =>
      promoted.category = r.category ∧ promoted.integer? = value.integer? := by
  intro value isValue
  have widened : (conversion ctx (.primitive p) (.primitive r)).instrs (.primitive p)
      (.primitive r) = if p.category = r.category then [] else [.op .i2l] := by
    rcases promotes with rfl | ⟨rfl, notLong⟩ <;> cases p <;>
      simp_all [conversion, Conversion.classify, Conversion.ofPrimitives, Conversion.isReinterpreted,
        Conversion.rank, Conversion.instrs, Conversion.primitiveInstrs, JType.asPrimitive?,
        Primitive.isIntegral, Primitive.computational, Primitive.isIntLike, Conversion.computationalStep,
        Conversion.truncation, Primitive.category, JType.isVoid]
  rw [widened]
  by_cases same : p.category = r.category
  · rw [if_pos same]
    exact ⟨value, Runs.nil [value], isValue.trans same, rfl⟩
  · rw [if_neg same]
    have isInt : p.category = .int ∧ r = .long := by
      rcases promotes with rfl | ⟨rfl, notLong⟩ <;> cases p <;>
        simp_all [Primitive.category, Primitive.isIntegral]
    obtain ⟨isInt, rfl⟩ := isInt
    cases value <;> simp [Value.category, isInt] at isValue
    rename_i a
    refine ⟨.long a.toInt64, ?_, rfl, ?_⟩
    · exact Runs.of_calculation rfl rfl fun _ => rfl
    · simp [Value.integer?]

section

variable {left right : Operand} {leftType rightType : JType}
variable {leftResult? rightResult? : Option (Value × List Instr)}

/-- The operands of a comparison are on the stack, the right one on top; each is
related to the result of its code. -/
structure Compares (setting : Setting) (leftType rightType : JType)
    (leftResult? rightResult? : Option (Value × List Instr)) (related : Value → Value → Prop)
    (leftValue rightValue : Value) (loads : List Instr) (left right : Value) (s t : State) : Prop
    extends Executes setting [] [] loads none [right, left] s t where
  alive : t.frame.alive = true
  left_category : leftValue.category = leftType.category
  right_category : rightValue.category = rightType.category
  left_related : related leftValue left
  right_related : related rightValue right
  results : ∃ loads₁ loads₂, leftResult? = some (leftValue, loads₁) ∧
    rightResult? = some (rightValue, loads₂) ∧ loads = loads₁ ++ loads₂

theorem comparands_executes {ty : JType} {related : Value → Value → Prop}
    (stable : Stable setting.inv)
    (yieldsLeft : Yields ctx setting left (some leftType) leftResult?)
    (yieldsRight : Yields ctx setting right (some rightType) rightResult?)
    (convertsLeft : Converts ctx setting leftType ty related)
    (convertsRight : Converts ctx setting rightType ty related)
    (alive : s.frame.alive = true) (holds : setting.inv s)
    (run : comparands ctx left right ty s = .ok () t) :
    ∃ leftValue rightValue loads leftConverted rightConverted,
      Compares setting leftType rightType leftResult? rightResult? related leftValue rightValue
        loads leftConverted rightConverted s t := by
  obtain ⟨_, u, leftValued, run⟩ := bind_eq_ok.mp run
  obtain ⟨_, v, leftCoerced, run⟩ := bind_eq_ok.mp run
  obtain ⟨_, w, rightValued, rightCoerced⟩ := bind_eq_ok.mp run
  obtain ⟨⟨leftValue, loads₁⟩, typedLeft, isLeft, leftCategory, first⟩ :=
    yieldsLeft.valued alive holds leftValued
  obtain rfl := Option.some.inj typedLeft
  obtain ⟨leftConverted, leftRuns, leftRelated⟩ := convertsLeft leftCategory
  have first := first.coerced stable leftRuns leftCoerced
  obtain ⟨⟨rightValue, loads₂⟩, typedRight, isRight, rightCategory, second⟩ :=
    yieldsRight.valued first.alive first.keeps rightValued
  obtain rfl := Option.some.inj typedRight
  obtain ⟨rightConverted, rightRuns, rightRelated⟩ := convertsRight rightCategory
  have second := second.coerced stable rightRuns rightCoerced
  exact ⟨leftValue, rightValue, loads₁ ++ loads₂, leftConverted, rightConverted,
    ⟨(first.pair second).1, second.alive, leftCategory, rightCategory, leftRelated, rightRelated,
      loads₁, loads₂, isLeft, isRight, rfl⟩⟩

theorem values_execute {foundLeft foundRight : JType}
    (yieldsLeft : Yields ctx setting left (some leftType) leftResult?)
    (yieldsRight : Yields ctx setting right (some rightType) rightResult?)
    (alive : s.frame.alive = true) (holds : setting.inv s)
    (leftValued : value left.code s = .ok foundLeft u)
    (rightValued : value right.code u = .ok foundRight t) :
    ∃ leftValue rightValue loads,
      Compares setting leftType rightType leftResult? rightResult? Eq leftValue rightValue
        loads leftValue rightValue s t := by
  obtain ⟨⟨leftValue, loads₁⟩, typedLeft, isLeft, leftCategory, first⟩ :=
    yieldsLeft.valued alive holds leftValued
  obtain rfl := Option.some.inj typedLeft
  obtain ⟨⟨rightValue, loads₂⟩, typedRight, isRight, rightCategory, second⟩ :=
    yieldsRight.valued first.alive first.keeps rightValued
  obtain rfl := Option.some.inj typedRight
  exact ⟨leftValue, rightValue, loads₁ ++ loads₂,
    ⟨(first.pair second).1, second.alive, leftCategory, rightCategory, rfl, rfl,
      loads₁, loads₂, isLeft, isRight, rfl⟩⟩

end

/-- The ways in which a comparison relates types. -/
theorem relates_cases {op : RelOp} {left right : JType} (related : op.relates left right = true) :
    (left.isReference = true ∧ right.isReference = true ∧ op.isEquality = true) ∨
      (left = .boolean ∧ right = .boolean ∧ op.isEquality = true) ∨
      (∃ p, left = .primitive p ∧ right = .primitive p ∧ (p = .float ∨ p = .double)) ∨
      ∃ p q, left = .primitive p ∧ right = .primitive q ∧ p.isIntegral = true ∧
        q.isIntegral = true := by
  unfold RelOp.relates at related
  split at related
  · rename_i p q
    simp only [Bool.or_eq_true, Bool.and_eq_true, decide_eq_true_eq] at related
    rcases related with ((integral | ⟨rfl, rfl⟩) | ⟨rfl, rfl⟩) | ⟨⟨rfl, rfl⟩, equality⟩
    · exact .inr (.inr (.inr ⟨p, q, rfl, rfl, integral⟩))
    · exact .inr (.inr (.inl ⟨_, rfl, rfl, .inl rfl⟩))
    · exact .inr (.inr (.inl ⟨_, rfl, rfl, .inr rfl⟩))
    · exact .inr (.inl ⟨rfl, rfl, equality⟩)
  · simp only [Bool.and_eq_true] at related
    exact .inl ⟨related.1.1, related.1.2, related.2⟩

theorem category_of_isIntegral {p : Primitive} (integral : p.isIntegral = true) :
    (JType.primitive p).category = .int ∨ (JType.primitive p).category = .long := by
  cases p <;> simp_all [Primitive.isIntegral, Primitive.category]

theorem exists_integralPromotion {p q : Primitive} (left : p.isIntegral = true)
    (right : q.isIntegral = true) :
    ∃ r, JType.binaryPromotion? (.primitive p) (.primitive q) = some r ∧
      (r = .long ∨ r = .int ∧ p ≠ .long) ∧ (r = .long ∨ r = .int ∧ q ≠ .long) ∧
      ((JType.primitive p).isBooleanLike || (JType.primitive q).isBooleanLike) = false ∧
      r.isPromoted := by
  refine ⟨if p = .long ∨ q = .long then .long else .int, ?_⟩
  cases p <;> cases q <;> simp_all [Primitive.isIntegral, Primitive.isPromoted] <;> decide

/-- Related operands have a result. -/
theorem exists_compare? {op : RelOp} {nan : Bool} {leftType rightType : JType}
    {left right : Value} (related : op.relates leftType rightType = true)
    (isLeft : left.category = leftType.category) (isRight : right.category = rightType.category) :
    ∃ verdict, op.compare? nan left right = some verdict := by
  rcases relates_cases related with ⟨leftReference, rightReference, equality⟩ |
    ⟨rfl, rfl, -⟩ | ⟨p, rfl, rfl, floating⟩ | ⟨p, q, rfl, rfl, leftIntegral, rightIntegral⟩
  · rw [JType.category_of_isReference leftReference] at isLeft
    rw [JType.category_of_isReference rightReference] at isRight
    cases left <;> cases right <;> simp [Value.category] at isLeft isRight
    exact ⟨_, if_pos equality⟩
  · obtain ⟨m, isLeftNumber⟩ := Value.exists_integer (.inl isLeft)
    obtain ⟨n, isRightNumber⟩ := Value.exists_integer (.inl isRight)
    exact ⟨_, RelOp.compare?_of_integers isLeftNumber isRightNumber⟩
  · rcases floating with rfl | rfl <;> cases left <;> cases right <;>
      simp [Value.category, Primitive.category] at isLeft isRight <;> exact ⟨_, rfl⟩
  · obtain ⟨m, isLeftNumber⟩ := Value.exists_integer (isLeft ▸ category_of_isIntegral leftIntegral)
    obtain ⟨n, isRightNumber⟩ :=
      Value.exists_integer (isRight ▸ category_of_isIntegral rightIntegral)
    exact ⟨_, RelOp.compare?_of_integers isLeftNumber isRightNumber⟩

/-- What a comparison of two results amounts to. -/
def RelOp.outcome? (op : RelOp) (nan : Bool) (left right : Option (Value × List Instr)) :
    Option (Bool × List Instr) :=
  left.bind fun (leftValue, loads) => right.bind fun (rightValue, loads') =>
    (op.compare? nan leftValue rightValue).map fun holds => (holds, loads ++ loads')

section

variable {op : RelOp} {nan : Bool} {left right : Operand} {leftType rightType : JType}
variable {leftResult? rightResult? : Option (Value × List Instr)}

/-- The outcome of a comparison of related operands that are on the stack. -/
theorem Compares.exists_outcome {related : Value → Value → Prop}
    {leftValue rightValue leftConverted rightConverted : Value}
    (compares : Compares setting leftType rightType leftResult? rightResult? related leftValue
      rightValue loads leftConverted rightConverted s t)
    (isRelated : op.relates leftType rightType = true) (sense : Bool) :
    ∃ verdict, RelOp.outcome? op nan leftResult? rightResult? = some (verdict, loads) ∧
      (if sense then op else op.negate).compare? (if sense then nan else !nan)
        leftValue rightValue = some (decide (verdict = sense)) := by
  obtain ⟨verdict, compared⟩ : ∃ verdict, op.compare? nan leftValue rightValue = some verdict :=
    exists_compare? isRelated compares.left_category compares.right_category
  obtain ⟨loads₁, loads₂, isLeft, isRight, rfl⟩ := compares.results
  exact ⟨verdict, by simp [RelOp.outcome?, isLeft, isRight, compared],
    RelOp.compare?_of_sense sense compared⟩

theorem compareBranch_decides (stable : Stable setting.inv)
    (yieldsLeft : Yields ctx setting left (some leftType) leftResult?)
    (yieldsRight : Yields ctx setting right (some rightType) rightResult?)
    (related : op.relates leftType rightType = true)
    (consistent : leftType = .float ∨ leftType = .double → op.Consistent nan)
    (alive : s.frame.alive = true) (holds : setting.inv s) (known : target ∈ s.old)
    (run : compareBranch ctx op left right nan sense target s = .ok () t) :
    ∃ outcome, RelOp.outcome? op nan leftResult? rightResult? = some outcome ∧
      Decides setting outcome sense target s t := by
  unfold compareBranch at run
  obtain ⟨_, q, leftProbed, run⟩ := bind_eq_ok.mp run
  obtain ⟨typedLeft, first, frameEq⟩ := yieldsLeft.probe_executes alive holds leftProbed
  obtain rfl := Option.some.inj typedLeft
  obtain ⟨_, r, rightProbed, run⟩ := bind_eq_ok.mp run
  obtain ⟨typedRight, second, frameEq'⟩ :=
    yieldsRight.probe_executes (frameEq ▸ alive) first.keeps rightProbed
  obtain rfl := Option.some.inj typedRight
  obtain ⟨-, run⟩ := check_eq_ok.mp run
  obtain ⟨-, run⟩ := check_eq_ok.mp run
  have before := first.trans second (by simp)
  have aliveR : r.frame.alive = true := by rw [frameEq', frameEq, alive]
  rcases relates_cases related with ⟨leftReference, rightReference, equality⟩ |
    ⟨rfl, rfl, equality⟩ | ⟨p, rfl, rfl, floating⟩ | ⟨p, q, rfl, rfl, leftIntegral, rightIntegral⟩
  · rw [if_pos (by simp [leftReference, rightReference, equality])] at run
    obtain ⟨_, u, leftValued, run⟩ := bind_eq_ok.mp run
    obtain ⟨_, v, rightValued, run⟩ := bind_eq_ok.mp run
    obtain ⟨leftValue, rightValue, loads, compares⟩ :=
      values_execute yieldsLeft yieldsRight aliveR before.keeps leftValued rightValued
    obtain ⟨verdict, outcome, compared⟩ := compares.exists_outcome related sense
    refine ⟨(verdict, loads), outcome, ?_⟩
    have isLeft := compares.left_category
    have isRight := compares.right_category
    rw [JType.category_of_isReference leftReference] at isLeft
    rw [JType.category_of_isReference rightReference] at isRight
    cases leftValue <;> cases rightValue <;> simp [Value.category] at isLeft isRight
    apply identityBranch_decides stable (before.trans compares.toExecutes (by simp))
      compares.alive known _ run
    have equality : (if sense then op else op.negate).isEquality = true := by
      cases sense <;> simpa using equality
    simpa [RelOp.compare?, equality] using compared
  · have notReference : ¬(JType.boolean.isReference && JType.boolean.isReference &&
        op.isEquality) = true := by simp [JType.isReference]
    rw [if_neg notReference, if_pos (by rfl)] at run
    obtain ⟨-, run⟩ := check_eq_ok.mp run
    obtain ⟨_, u, operands, run⟩ := bind_eq_ok.mp run
    obtain ⟨leftValue, rightValue, loads, _, _, compares⟩ :=
      comparands_executes stable yieldsLeft yieldsRight (converts_self ctx .boolean)
        (converts_self ctx .boolean) aliveR before.keeps operands
    obtain ⟨verdict, outcome, compared⟩ := compares.exists_outcome related sense
    refine ⟨(verdict, loads), outcome, ?_⟩
    obtain rfl := compares.left_related
    obtain rfl := compares.right_related
    have isLeft := compares.left_category
    have isRight := compares.right_category
    obtain ⟨_, v, popping, run⟩ := bind_eq_ok.mp run
    obtain ⟨-, popped⟩ := popN_emits popping
    cases leftValue <;> cases rightValue <;>
      simp [Value.category, Primitive.category] at isLeft isRight
    apply (before.trans compares.toExecutes (by simp)).decides stable compares.alive popped known
      (RelOp.test?_intBranch _) _ _ run
    · cases sense <;> cases op <;> decide
    · intro stack
      simpa [Test.apply, RelOp.compare?, Value.integer?] using compared
  · have isNumeric : JType.binaryPromotion? (.primitive p) (.primitive p) = some p ∧
        (JType.primitive p).isBooleanLike = false ∧ p.isPromoted := by
      rcases floating with rfl | rfl <;> simp [Primitive.isPromoted] <;> decide
    obtain ⟨promotion, notBoolean, promoted⟩ := isNumeric
    rw [if_neg (by simp [JType.isReference]), if_neg (by simp [notBoolean]), promotion] at run
    obtain ⟨_, u, operands, run⟩ := bind_eq_ok.mp run
    obtain ⟨leftValue, rightValue, loads, _, _, compares⟩ :=
      comparands_executes stable yieldsLeft yieldsRight (converts_self ctx _)
        (converts_self ctx _) aliveR before.keeps operands
    obtain ⟨verdict, outcome, compared⟩ := compares.exists_outcome related sense
    refine ⟨(verdict, loads), outcome, ?_⟩
    obtain rfl := compares.left_related
    obtain rfl := compares.right_related
    have consistent := (consistent (by simpa using floating)).of_sense sense
    exact numericBranch_decides stable (before.trans compares.toExecutes (by simp)) compares.alive
      known promoted compares.left_category compares.right_category (fun _ => consistent)
      compared run
  · obtain ⟨r, promotion, leftPromotes, rightPromotes, notBoolean, promoted⟩ :=
      exists_integralPromotion leftIntegral rightIntegral
    rw [if_neg (by simp [JType.isReference]), if_neg (by simp [notBoolean]), promotion] at run
    obtain ⟨_, u, operands, run⟩ := bind_eq_ok.mp run
    obtain ⟨leftValue, rightValue, loads, leftPromoted, rightPromoted, compares⟩ :=
      comparands_executes stable yieldsLeft yieldsRight
        (promotion_converts leftIntegral leftPromotes)
        (promotion_converts rightIntegral rightPromotes) aliveR before.keeps operands
    obtain ⟨verdict, outcome, compared⟩ := compares.exists_outcome related sense
    refine ⟨(verdict, loads), outcome, ?_⟩
    obtain ⟨leftCategory, leftNumber⟩ := compares.left_related
    obtain ⟨rightCategory, rightNumber⟩ := compares.right_related
    have notFloating : r = .float ∨ r = .double → op.Consistent nan := by
      rcases leftPromotes with rfl | ⟨rfl, -⟩ <;> simp
    apply numericBranch_decides stable (before.trans compares.toExecutes (by simp)) compares.alive
      known promoted leftCategory rightCategory (fun isFloating => (notFloating isFloating).of_sense
        sense) _ run
    obtain ⟨m, isLeftNumber⟩ :=
      Value.exists_integer (compares.left_category ▸ category_of_isIntegral leftIntegral)
    obtain ⟨n, isRightNumber⟩ :=
      Value.exists_integer (compares.right_category ▸ category_of_isIntegral rightIntegral)
    rw [RelOp.compare?_of_integers isLeftNumber isRightNumber] at compared
    rw [RelOp.compare?_of_integers (leftNumber.trans isLeftNumber)
      (rightNumber.trans isRightNumber)]
    exact compared

end

/-! ## Junctions -/

/-- The outcome of parts of which the first one with this sense decides.  Parts
after it need not have an outcome. -/
def settle? (sense : Bool) : List (Option (Bool × List Instr)) → Option (Bool × List Instr)
  | [] => some (!sense, [])
  | outcome? :: rest =>
      outcome?.bind fun (holds, loads) =>
        if holds = sense then some (holds, loads)
        else (settle? sense rest).map fun (holds, more) => (holds, loads ++ more)

theorem settle?_concat (sense : Bool) (outcomes : List (Option (Bool × List Instr)))
    (last? : Option (Bool × List Instr)) :
    settle? sense (outcomes ++ [last?]) =
      (settle? sense outcomes).bind fun (holds, loads) =>
        if holds = sense then some (holds, loads)
        else last?.map fun (holds, more) => (holds, loads ++ more) := by
  induction outcomes with
  | nil =>
      cases last? with
      | none => cases sense <;> rfl
      | some last =>
          obtain ⟨holds, loads⟩ := last
          cases sense <;> cases holds <;> simp [settle?]
  | cons outcome? rest ih =>
      cases outcome? with
      | none => rfl
      | some outcome =>
          obtain ⟨holds, loads⟩ := outcome
          by_cases same : holds = sense
          · simp [settle?, same]
          · simp only [List.cons_append, settle?, Option.bind_some, same, if_false, ih]
            cases settle? sense rest with
            | none => rfl
            | some settled =>
                simp only [Option.bind_some, Option.map_some]
                split <;> cases last? <;> simp

theorem eachBranch_decides {parts : List Branch} {outcomes : List (Option (Bool × List Instr))}
    (deciding : List.Forall₂ (Deciding setting) parts outcomes) (alive : s.frame.alive = true)
    (holds : setting.inv s) (known : target ∈ s.old)
    (run : eachBranch parts sense target s = .ok () t) :
    ∃ outcome, settle? sense outcomes = some outcome ∧
      Decides setting outcome sense target s t := by
  induction deciding generalizing s with
  | nil =>
      obtain ⟨-, rfl⟩ := pure_eq_ok.mp run
      have unlike : (!sense) ≠ sense := by cases sense <;> decide
      refine ⟨(!sense, []), rfl, ?_, fun dead => ?_, fun same => absurd same unlike⟩
      · simpa [unlike] using Executes.refl holds []
      · simp [alive] at dead
  | @cons part outcome? parts outcomes deciding _ ih =>
      obtain ⟨_, u, first, run⟩ := bind_eq_ok.mp run
      obtain ⟨⟨verdict, loads⟩, isOutcome, first⟩ := deciding alive holds known first
      have shared : ∀ label ∈ [target], label ∈ [target] ∨
          (s.output.nextLabel ≤ label.id ∧ label.id < u.output.nextLabel) := fun _ => .inl
      by_cases same : verdict = sense
      · refine ⟨(verdict, loads), by simp [settle?, isOutcome, same], ?_⟩
        have left := first.toExecutes
        rw [if_pos same] at left
        rcases whenAlive_eq_ok.mp run with ⟨aliveU, others⟩ | ⟨-, rfl⟩
        · obtain ⟨_, -, others⟩ := ih aliveU first.keeps (first.old known) others
          refine ⟨?_, fun _ => same, fun _ => others.later.isSome_shape (first.marked same)⟩
          rw [if_pos same]
          exact left.leave others.toExecutes shared
        · exact first
      · have through := first.toExecutes
        rw [if_neg same] at through
        rcases whenAlive_eq_ok.mp run with ⟨aliveU, others⟩ | ⟨deadU, -⟩
        · obtain ⟨⟨settled, more⟩, isSettled, others⟩ :=
            ih aliveU first.keeps (first.old known) others
          exact ⟨(settled, loads ++ more), by simp [settle?, isOutcome, same, isSettled],
            through.trans others.toExecutes shared, others.dead, others.marked⟩
        · exact absurd (first.dead deadU) same

theorem exists_of_forall₂_concat {α β : Type} {R : α → β → Prop} {xs : List α} {x : α}
    {zs : List β} (related : List.Forall₂ R (xs ++ [x]) zs) :
    ∃ ys y, zs = ys ++ [y] ∧ List.Forall₂ R xs ys ∧ R x y := by
  induction xs generalizing zs with
  | nil =>
      obtain ⟨y, ys, here, rest, rfl⟩ := List.forall₂_cons_left_iff.mp related
      obtain rfl := List.forall₂_nil_left_iff.mp rest
      exact ⟨[], y, rfl, .nil, here⟩
  | cons first xs ih =>
      obtain ⟨z, zs, here, rest, rfl⟩ := List.forall₂_cons_left_iff.mp related
      obtain ⟨ys, y, rfl, rest, last⟩ := ih rest
      exact ⟨z :: ys, y, rfl, .cons here rest, last⟩

theorem lastBranch_decides {parts : List Branch} {outcomes : List (Option (Bool × List Instr))}
    (stable : Stable setting.inv) (deciding : List.Forall₂ (Deciding setting) parts outcomes)
    (alive : s.frame.alive = true) (holds : setting.inv s) (known : target ∈ s.old)
    (run : lastBranch ctx parts sense target s = .ok () t) :
    ∃ outcome, settle? (!sense) outcomes = some outcome ∧
      Decides setting outcome sense target s t := by
  rcases List.eq_nil_or_concat' parts with rfl | ⟨initial, last, rfl⟩
  · obtain rfl := List.forall₂_nil_left_iff.mp deciding
    obtain ⟨branching, marked⟩ := goto_executes stable holds known run
    refine ⟨(sense, []), by simp [settle?], ?_, fun _ => rfl, fun _ => marked⟩
    simpa using branching
  · obtain ⟨outcomes, outcome?, rfl, decidingInitial, decidingLast⟩ :=
      exists_of_forall₂_concat deciding
    simp only [lastBranch, List.getLast?_concat, List.dropLast_concat] at run
    obtain ⟨skip, a, allocated, run⟩ := bind_eq_ok.mp run
    obtain ⟨_, b, initialRun, run⟩ := bind_eq_ok.mp run
    obtain ⟨_, c, lastRun, placed⟩ := bind_eq_ok.mp run
    have opens := newLabel_opens allocated
    have opening : Executes setting [target] [] [] none [] s a :=
      Executes.of_newLabel stable holds allocated []
    obtain ⟨⟨settled, loads⟩, isSettled, each⟩ := eachBranch_decides decidingInitial
      (opens.frame_eq ▸ alive) opening.keeps opens.old initialRun
    -- Both labels are known from here on: the target and the one that ends the junction.
    have inside : ∀ label ∈ [skip, target], label ∈ [target] ∨
        (s.output.nextLabel ≤ label.id ∧ label.id < a.output.nextLabel) := by
      intro label mem
      rcases List.mem_cons.mp mem with rfl | isTarget
      · exact .inr ⟨by simpa using opens.fresh, opens.old⟩
      · exact .inl isTarget
    have shared : ∀ label ∈ [target], label ∈ [skip, target] ∨
        (a.output.nextLabel ≤ label.id ∧ label.id < b.output.nextLabel) := by simp
    have eachMore := each.toExecutes.mono (by simp : [skip] ⊆ [skip, target])
    rw [settle?_concat, isSettled]
    by_cases decided : settled = !sense
    · -- A part before the last one goes to the end of the junction.
      refine ⟨(settled, loads), by simp [decided], ?_⟩
      rw [if_pos decided] at eachMore
      obtain ⟨loads', exit', others⟩ : ∃ loads' exit',
          Executes setting [target] [] loads' exit' [] b c := by
        rcases whenAlive_eq_ok.mp lastRun with ⟨aliveB, lastRun⟩ | ⟨-, rfl⟩
        · obtain ⟨_, -, last⟩ :=
            decidingLast aliveB each.keeps (each.old (opens.older known)) lastRun
          exact ⟨_, _, last.toExecutes⟩
        · exact ⟨[], none, Executes.refl each.keeps []⟩
      have ended := (eachMore.leave others shared).rejoin stable
        (others.old (each.old opens.old)) placed (.inl (by simp))
      have unlike : ¬settled = sense := by
        rw [decided]
        cases sense <;> decide
      refine ⟨?_, fun dead => ?_, fun same => absurd same unlike⟩
      · rw [if_neg unlike]
        exact opening.trans ended inside
      · have kept := others.later.isSome_shape (each.marked decided)
        simp [(place_dead placed dead).2] at kept
    · -- All parts before the last one fall through to it.
      rw [if_neg decided] at eachMore
      rcases whenAlive_eq_ok.mp lastRun with ⟨aliveB, lastRun⟩ | ⟨deadB, -⟩
      · obtain ⟨⟨verdict, more⟩, isOutcome, last⟩ :=
          decidingLast aliveB each.keeps (each.old (opens.older known)) lastRun
        refine ⟨(verdict, loads ++ more), by simp [decided, isOutcome], ?_⟩
        have placing : Executes setting [skip] [] [] none [] c t :=
          Executes.of_place stable last.keeps (last.old (each.old opens.old)) placed []
        have skipShared : ∀ label ∈ [skip], label ∈ [skip, target] ∨
            (a.output.nextLabel ≤ label.id ∧ label.id < c.output.nextLabel) := by simp
        have reached := eachMore.trans last.toExecutes shared
        refine ⟨?_, fun dead => last.dead (place_dead placed dead).1,
          fun same => placing.later.isSome_shape (last.marked same)⟩
        apply opening.trans _ inside
        by_cases same : verdict = sense
        · rw [if_pos same] at reached ⊢
          exact reached.leave placing skipShared
        · rw [if_neg same] at reached ⊢
          simpa using reached.trans placing skipShared
      · exact absurd (each.dead deadB) decided

theorem conjBranch_deciding {parts : List Branch} {outcomes : List (Option (Bool × List Instr))}
    (stable : Stable setting.inv) (deciding : List.Forall₂ (Deciding setting) parts outcomes) :
    Deciding setting (conjBranch ctx parts) (settle? false outcomes) := by
  intro s t sense target alive holds known run
  cases sense with
  | true => exact lastBranch_decides stable deciding alive holds known run
  | false => exact eachBranch_decides deciding alive holds known run

theorem disjBranch_deciding {parts : List Branch} {outcomes : List (Option (Bool × List Instr))}
    (stable : Stable setting.inv) (deciding : List.Forall₂ (Deciding setting) parts outcomes) :
    Deciding setting (disjBranch ctx parts) (settle? true outcomes) := by
  intro s t sense target alive holds known run
  cases sense with
  | true => exact eachBranch_decides deciding alive holds known run
  | false => exact lastBranch_decides stable deciding alive holds known run

end Gen

end JvmAssembler
