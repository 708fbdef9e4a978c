import Mathlib
import JvmAssembler.Proofs.Category
import JvmAssembler.Proofs.Run

/-!
# Effects of the instructions that generation writes

The variant of an instruction family that generation chooses by a type works on
operands of that type's category, and the instructions of a conversion turn a
value of the source's category into one of the target's.
-/

namespace JvmAssembler

/-! ## Instruction families -/

/-- A property of the code and category of types that holds of primitive types
and references holds of all types that have values. -/
theorem JType.of_value {ty : JType} (value : ty.isVoid = false)
    (property : UInt8 → Category → Prop)
    (primitive : ∀ p : Primitive, property p.typecode p.category)
    (reference : property 4 .reference) : property ty.typecode ty.category := by
  cases ty with
  | primitive p => exact primitive p
  | void => contradiction
  | _ => exact reference

/-- The types that arithmetic is performed in. -/
def Primitive.isPromoted (p : Primitive) : Prop :=
  p = .int ∨ p = .long ∨ p = .float ∨ p = .double

theorem Primitive.isPromoted_computational (p : Primitive) : p.computational.isPromoted := by
  cases p <;> simp [isPromoted, computational, isIntLike]

theorem JType.isPromoted_of_binaryPromotion? {left right : JType} {p : Primitive}
    (promoted : binaryPromotion? left right = some p) : p.isPromoted := by
  unfold binaryPromotion? at promoted
  split at promoted
  · cases promoted
    unfold Primitive.isPromoted
    repeat' split
    all_goals simp
  · contradiction

theorem JType.isPromoted_of_unaryPromotion? {ty : JType} {p : Primitive}
    (promoted : ty.unaryPromotion? = some p) : p.isPromoted := by
  obtain ⟨q, -, rfl⟩ := Option.map_eq_some_iff.mp promoted
  exact q.isPromoted_computational

/-- The ways in which an operator is applicable: a shift, a bitwise operation on
booleans, or an operation on two numbers of one type. -/
theorem Gen.operandTypes?_cases {op : ArithOp} {left right result converted : JType}
    (types : operandTypes? op left right = some (result, converted)) :
    (op.isShift = true ∧ ∃ p : Primitive, p.isIntegral = true ∧ result = .primitive p ∧
        converted = .int ∧ left.unaryPromotion? = some p) ∨
      (op.isBitwise = true ∧ left.isBooleanLike = true ∧ right.isBooleanLike = true ∧
        result = .boolean ∧ converted = .boolean) ∨
      ∃ p : Primitive, op.isShift = false ∧ (op.isBitwise = true → p.isIntegral = true) ∧
        result = .primitive p ∧ converted = .primitive p ∧
        JType.binaryPromotion? left right = some p := by
  unfold operandTypes? at types
  split at types
  · rename_i shift
    obtain ⟨p, found, pair⟩ := Option.map_eq_some_iff.mp types
    obtain ⟨rfl, rfl⟩ := Prod.mk.inj pair
    obtain ⟨promoted, integral⟩ := Option.filter_eq_some_iff.mp found
    exact .inl ⟨shift, p, integral, rfl, rfl, promoted⟩
  · rename_i notShift
    split at types
    · rename_i booleans
      cases types
      simp only [Bool.and_eq_true] at booleans
      exact .inr (.inl ⟨booleans.1.1, booleans.1.2, booleans.2, rfl, rfl⟩)
    · obtain ⟨p, found, pair⟩ := Option.map_eq_some_iff.mp types
      obtain ⟨rfl, rfl⟩ := Prod.mk.inj pair
      obtain ⟨promoted, integral⟩ := Option.filter_eq_some_iff.mp found
      refine .inr (.inr ⟨p, by simpa using notShift, ?_, rfl, rfl, promoted⟩)
      intro bitwise
      simpa [bitwise] using integral

namespace Instr

variable {ty : JType}

theorem effect?_loadOf (value : ty.isVoid = false) (slot : Slot) :
    (Instr.var (.loadOf ty) slot).effect? = some ⟨[], [ty.category]⟩ :=
  JType.of_value value
    (fun code c => (Instr.var (Opcode.iload + Opcode.truncate code) slot).effect? = some ⟨[], [c]⟩)
    (fun p => by cases p <;> rfl) rfl

theorem effect?_storeOf (value : ty.isVoid = false) (slot : Slot) :
    (Instr.var (.storeOf ty) slot).effect? = some ⟨[ty.category], []⟩ :=
  JType.of_value value
    (fun code c => (Instr.var (Opcode.istore + Opcode.truncate code) slot).effect? = some ⟨[c], []⟩)
    (fun p => by cases p <;> rfl) rfl

theorem effect?_returnOf (value : ty.isVoid = false) :
    (Instr.op (.returnOf ty)).effect? = some ⟨[ty.category], []⟩ ∧
      (Instr.op (.returnOf ty)).returned? = some ty.category :=
  JType.of_value value
    (fun code c => (Instr.op (Opcode.ireturn + Opcode.truncate code)).effect? = some ⟨[c], []⟩ ∧
      (Instr.op (Opcode.ireturn + Opcode.truncate code)).returned? = some c)
    (fun p => by cases p <;> exact ⟨rfl, rfl⟩) ⟨rfl, rfl⟩

theorem effect?_arrayLoadOf (value : ty.isVoid = false) :
    (Instr.op (.arrayLoadOf ty)).isPlain = true ∧
      (Instr.op (.arrayLoadOf ty)).effect? = some ⟨[.int, .reference], [ty.category]⟩ :=
  JType.of_value value
    (fun code c => (Instr.op (Opcode.iaload + code)).isPlain = true ∧
      (Instr.op (Opcode.iaload + code)).effect? = some ⟨[.int, .reference], [c]⟩)
    (fun p => by cases p <;> exact ⟨rfl, rfl⟩) ⟨rfl, rfl⟩

theorem effect?_arrayStoreOf (value : ty.isVoid = false) :
    (Instr.op (.arrayStoreOf ty)).isPlain = true ∧
      (Instr.op (.arrayStoreOf ty)).effect? = some ⟨[ty.category, .int, .reference], []⟩ :=
  JType.of_value value
    (fun code c => (Instr.op (Opcode.iastore + code)).isPlain = true ∧
      (Instr.op (Opcode.iastore + code)).effect? = some ⟨[c, .int, .reference], []⟩)
    (fun p => by cases p <;> exact ⟨rfl, rfl⟩) ⟨rfl, rfl⟩

/-- A constant is loaded by a plain instruction that leaves a value of its
category. -/
theorem effect?_constantInstr (literal : Literal) :
    (Gen.constantInstr literal).isPlain = true ∧
      (Gen.constantInstr literal).effect? = some ⟨[], [literal.type.category]⟩ := by
  cases literal with
  | int value =>
      dsimp only [Gen.constantInstr]
      split
      · rename_i small
        rw [← Int32.ofInt_toInt value]
        generalize value.toInt = n at small ⊢
        obtain ⟨low, high⟩ := small
        interval_cases n <;> exact ⟨rfl, rfl⟩
      · repeat' split
        all_goals exact ⟨rfl, rfl⟩
  | long value =>
      dsimp only [Gen.constantInstr]
      repeat' split
      all_goals exact ⟨rfl, rfl⟩
  | float value =>
      simp only [Gen.constantInstr, Binary32.compactIndex?]
      split
      · rename_i found
        repeat' split at found
        all_goals cases found
        all_goals exact ⟨rfl, rfl⟩
      · exact ⟨rfl, rfl⟩
  | double value =>
      simp only [Gen.constantInstr, Binary64.compactIndex?]
      split
      · rename_i found
        repeat' split at found
        all_goals cases found
        all_goals exact ⟨rfl, rfl⟩
      · exact ⟨rfl, rfl⟩
  | string value => exact ⟨rfl, rfl⟩

theorem after?_pop {c : Category} (narrow : c.isWide = false) (rest : List Category) :
    (Instr.op .pop).after? (c :: rest) = some rest := by
  simp [after?, narrow]

theorem after?_pop2 {c : Category} (wide : c.isWide = true) (rest : List Category) :
    (Instr.op .pop2).after? (c :: rest) = some rest := by
  have differs : Instr.op .pop2 ≠ Instr.op .pop := by decide
  simp [after?, differs, wide]

theorem effect?_ineg (p : Primitive) :
    (Instr.op (Opcode.ineg + p.computational.typecode)).effect? =
      some ⟨[p.category], [p.category]⟩ := by
  cases p <;> rfl

theorem effect?_iadd (p : Primitive) :
    (Instr.op (Opcode.iadd + p.computational.typecode)).effect? =
      some ⟨[p.category, p.category], [p.category]⟩ := by
  cases p <;> rfl

/-- An arithmetic instruction takes operands of the types that its operands are
converted to. -/
theorem effect?_arith {op : ArithOp} {left right result converted : JType}
    (types : Gen.operandTypes? op left right = some (result, converted)) :
    (Instr.op (op.baseOpcode + Opcode.truncate result.typecode)).isPlain = true ∧
      (Instr.op (op.baseOpcode + Opcode.truncate result.typecode)).effect? =
        some ⟨[converted.category, result.category], [result.category]⟩ := by
  rcases Gen.operandTypes?_cases types with
    ⟨shift, p, integral, rfl, rfl, promoted⟩ | ⟨bitwise, -, -, rfl, rfl⟩ |
    ⟨p, notShift, integral, rfl, rfl, promoted⟩
  · rcases JType.isPromoted_of_unaryPromotion? promoted with rfl | rfl | rfl | rfl <;>
      cases op <;> first | contradiction | exact ⟨rfl, rfl⟩
  · cases op <;> first | contradiction | exact ⟨rfl, rfl⟩
  · rcases JType.isPromoted_of_binaryPromotion? promoted with rfl | rfl | rfl | rfl <;>
      cases op <;> first | contradiction | exact ⟨rfl, rfl⟩

theorem effect?_comparison {ty : Primitive} {op : RelOp} {nan : Bool} {code : Opcode}
    (found : Gen.comparison? ty op nan = some code) :
    (Instr.op code).isPlain = true ∧
      (Instr.op code).effect? = some ⟨[ty.category, ty.category], [.int]⟩ := by
  unfold Gen.comparison? at found
  cases ty <;> cases op <;> cases nan <;> cases found <;> exact ⟨rfl, rfl⟩

theorem effect?_zeroBranch (op : RelOp) (target : Label) :
    (Instr.jump op.zeroBranch target).effect? = some ⟨[.int], []⟩ := by
  cases op <;> rfl

theorem effect?_intBranch (op : RelOp) (target : Label) :
    (Instr.jump op.intBranch target).effect? = some ⟨[.int, .int], []⟩ := by
  cases op <;> rfl

end Instr

/-! ## Member instructions -/

namespace Member

variable {member : Member}

theorem effect?_getstatic (value : member.valueType.isVoid = false) :
    (Instr.member .getstatic member.ref).effect? = some ⟨[], [member.valueType.category]⟩ := by
  have value : member.ref.signature.result.isVoid = false := value
  simp only [Instr.effect?, MemberRef.effect?, value]
  rfl

theorem effect?_putstatic (value : member.valueType.isVoid = false) :
    (Instr.member .putstatic member.ref).effect? = some ⟨[member.valueType.category], []⟩ := by
  have value : member.ref.signature.result.isVoid = false := value
  simp only [Instr.effect?, MemberRef.effect?, value]
  rfl

theorem effect?_getfield (value : member.valueType.isVoid = false) :
    (Instr.member .getfield member.ref).effect? =
      some ⟨[.reference], [member.valueType.category]⟩ := by
  have value : member.ref.signature.result.isVoid = false := value
  simp only [Instr.effect?, MemberRef.effect?, value]
  rfl

theorem effect?_putfield (value : member.valueType.isVoid = false) :
    (Instr.member .putfield member.ref).effect? =
      some ⟨[member.valueType.category, .reference], []⟩ := by
  have value : member.ref.signature.result.isVoid = false := value
  simp only [Instr.effect?, MemberRef.effect?, value]
  rfl

/-- A call takes its arguments, the last one on top, above a receiver if there
is one. -/
theorem effect?_call {code : Opcode} {hasReceiver : Bool}
    (values : ∀ ty ∈ member.params, ty.isVoid = false)
    (isCall : code = .invokestatic ∧ hasReceiver = false ∨
      (code = .invokevirtual ∨ code = .invokespecial ∨ code = .invokeinterface) ∧
        hasReceiver = true) :
    (Instr.member code member.ref).effect? =
      some ⟨(member.params.map JType.category).reverse ++
        (if hasReceiver then [.reference] else []), member.signature.leaves⟩ := by
  have noVoid : member.ref.signature.params.any JType.isVoid = false :=
    List.any_eq_false.mpr fun ty mem => by simp [values ty mem]
  rcases isCall with ⟨rfl, rfl⟩ | ⟨rfl | rfl | rfl, rfl⟩
  · simp only [Instr.effect?, MemberRef.effect?, noVoid, Bool.false_eq_true, if_false,
      List.append_nil]
    rfl
  all_goals
    simp only [Instr.effect?, MemberRef.effect?, noVoid, if_true]
    rfl

end Member

/-! ## Straight-line code -/

/-- The stack after instructions that control runs through in order. -/
def afterAll? : List Instr → List Category → Option (List Category)
  | [], stack => some stack
  | instr :: rest, stack => (instr.after? stack).bind (afterAll? rest)

theorem afterAll?_singleton {instr : Instr} {takes leaves : List Category}
    (effect : instr.effect? = some ⟨takes, leaves⟩) (rest : List Category) :
    afterAll? [instr] (takes ++ rest) = some (leaves ++ rest) := by
  simp [afterAll?, Instr.after?_append effect]

theorem flowStep_of_isPlain {result : JType} {shapes : Label → Option (List Category)}
    {instr : Instr} (plain : instr.isPlain = true) {stack after : List Category}
    (step : instr.after? stack = some after) :
    flowStep result shapes (some stack) instr = some (some after) := by
  have noReturn : instr.returnsAs result := by
    intro c returned
    cases instr with
    | op code =>
        have continues : code.isTerminal = false := by simpa [Instr.isPlain] using plain
        simp only [Instr.returned?, Bool.and_eq_true, decide_eq_true_eq] at returned
        split at returned
        · rename_i range
          simp only [Opcode.isTerminal, Bool.or_eq_false_iff, Bool.and_eq_false_iff,
            decide_eq_false_iff_not] at continues
          have below : code ≤ Opcode.returnVoid := UInt8.le_of_lt range.2
          rcases continues.1.1 with low | high
          · exact absurd range.1 low
          · exact absurd below high
        · contradiction
    | _ => contradiction
  cases instr with
  | jump | label => contradiction
  | op code =>
      have continues : code.isTerminal = false := by simpa [Instr.isPlain] using plain
      simp [flowStep, step, noReturn, Instr.agreesAt, Instr.continues, continues]
  | _ => simp [flowStep, step, noReturn, Instr.agreesAt, Instr.continues]

/-- Plain instructions fit whatever the labels' stacks are. -/
theorem flow_of_afterAll? {result : JType} {shapes : Label → Option (List Category)}
    {code : List Instr} (plain : ∀ instr ∈ code, instr.isPlain = true)
    {stack after : List Category} (steps : afterAll? code stack = some after) :
    flow result shapes (some stack) code = some (some after) := by
  induction code generalizing stack with
  | nil =>
      cases steps
      rfl
  | cons instr rest ih =>
      obtain ⟨middle, first, others⟩ := Option.bind_eq_some_iff.mp steps
      rw [flow, flowStep_of_isPlain (plain instr (by simp)) first, Option.bind_some]
      exact ih (fun other mem => plain other (by simp [mem])) others

/-! ## Conversions -/

namespace Conversion

theorem afterAll?_primitiveInstrs (source target : Primitive) (rest : List Category) :
    afterAll? (primitiveInstrs source target) (source.category :: rest) =
      some (target.category :: rest) := by
  cases source <;> cases target <;> rfl

theorem effect?_boxInstr (p : Primitive) :
    (boxInstr p).effect? = some ⟨[p.category], [.reference]⟩ := by
  cases p <;> rfl

theorem effect?_unboxInstr (p : Primitive) :
    (unboxInstr p).effect? = some ⟨[.reference], [p.category]⟩ := by
  cases p <;> rfl

theorem effect?_checkcast (ty : JType) :
    (Instr.type .checkcast ty).effect? = some ⟨[.reference], [.reference]⟩ :=
  rfl

theorem after?_boxInstr (p : Primitive) (rest : List Category) :
    (boxInstr p).after? (p.category :: rest) = some (.reference :: rest) :=
  Instr.after?_append (effect?_boxInstr p) rest

theorem after?_unboxInstr (p : Primitive) (rest : List Category) :
    (unboxInstr p).after? (.reference :: rest) = some (p.category :: rest) :=
  Instr.after?_append (effect?_unboxInstr p) rest

theorem after?_checkcast (ty : JType) (rest : List Category) :
    (Instr.type .checkcast ty).after? (.reference :: rest) = some (.reference :: rest) :=
  Instr.after?_append (effect?_checkcast ty) rest

/-- The instructions of a legal conversion turn a value of the source's category
into one of the target's. -/
theorem afterAll?_instrs {source target : JType} {conversion : Conversion}
    (legal : conversion ≠ .illegal) (between : Between source target conversion)
    (rest : List Category) :
    afterAll? (conversion.instrs source target) (source.category :: rest) =
      some (target.category :: rest) := by
  cases conversion with
  | identity => rw [show source = target from between, instrs, afterAll?]
  | wideningPrimitive | reinterpret | narrowingPrimitive =>
      obtain ⟨p, q, rfl, rfl⟩ := between
      exact afterAll?_primitiveInstrs p q rest
  | boxing | boxingWidening =>
      obtain ⟨p, rfl, notPrimitive⟩ := between
      rw [JType.category_of_notPrimitive notPrimitive]
      simp [instrs, afterAll?, JType.asPrimitive?, JType.category, after?_boxInstr,
        after?_checkcast]
  | unboxing | checkedUnboxing =>
      obtain ⟨q, notPrimitive, rfl⟩ := between
      rw [JType.category_of_notPrimitive notPrimitive]
      simp [instrs, afterAll?, JType.asPrimitive?, JType.category, after?_unboxInstr,
        after?_checkcast]
  | unboxingWidening =>
      obtain ⟨p, q, wraps, rfl, -⟩ := between
      rw [JType.category_of_notPrimitive (JType.not_isPrimitive_of_unboxed? wraps)]
      simp [instrs, wraps, afterAll?, JType.asPrimitive?, JType.category, after?_unboxInstr,
        afterAll?_primitiveInstrs]
  | wideningReference | narrowingReference =>
      rw [JType.category_of_notPrimitive between.1, JType.category_of_notPrimitive between.2]
      simp only [instrs]
      split
      · rfl
      · simp [afterAll?, after?_checkcast]
  | illegal => contradiction

end Conversion

end JvmAssembler
