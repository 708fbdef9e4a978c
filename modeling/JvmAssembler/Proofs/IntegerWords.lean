import Mathlib
import JvmAssembler.Proofs.BranchRun
import JvmAssembler.Proofs.IntegerProgram

/-!
# Whole numbers in machine words

The machine holds a number of an integral type in a word of 32 or 64 bits.  Its
instructions for arithmetic and conversions do to words what the operators and
conversions of integer programs do to numbers, and the generator's type rules
choose the instructions of the right width.
-/

namespace JvmAssembler

/-! ## Wrapping -/

namespace IntType

variable {ty source target left right : IntType} {m n : Int}

theorem wrap_emod (ty : IntType) (n : Int) :
    ty.wrap n % (2 ^ ty.bits : Nat) = n % (2 ^ ty.bits : Nat) := by
  unfold wrap
  split
  · exact Int.bmod_emod
  · exact Int.emod_emod_of_dvd n (dvd_refl _)

theorem wrap_congr (same : m % (2 ^ ty.bits : Nat) = n % (2 ^ ty.bits : Nat)) :
    ty.wrap m = ty.wrap n := by
  unfold wrap
  split
  · rw [← Int.emod_bmod m, same, Int.emod_bmod]
  · exact same

/-- Wrapping into a type with as many bits first changes nothing. -/
theorem wrap_wrap_of_le (fewer : target.bits ≤ source.bits) (n : Int) :
    target.wrap (source.wrap n) = target.wrap n := by
  have divides : ((2 ^ target.bits : Nat) : Int) ∣ (2 ^ source.bits : Nat) :=
    Int.natCast_dvd_natCast.mpr (pow_dvd_pow 2 fewer)
  apply wrap_congr
  rw [← Int.emod_emod_of_dvd _ divides, wrap_emod, Int.emod_emod_of_dvd _ divides]

theorem contains_wrap (ty : IntType) (n : Int) : ty.Contains (ty.wrap n) :=
  wrap_wrap_of_le le_rfl n

theorem wrap_int (n : Int) : IntType.int.wrap n = n.bmod (2 ^ 32) :=
  if_pos rfl

theorem wrap_long (n : Int) : IntType.long.wrap n = n.bmod (2 ^ 64) :=
  if_pos rfl

/-- The range of a type. -/
theorem contains_iff : ty.Contains n ↔
    (if ty.isSigned then -(2 ^ (ty.bits - 1)) else 0) ≤ n ∧
      n < if ty.isSigned then 2 ^ (ty.bits - 1) else 2 ^ ty.bits := by
  cases ty <;> simp [Contains, wrap, isSigned, bits, Int.bmod_def] <;> omega

theorem Contains.widen (contains : source.Contains n)
    (widens : converts false source target = true) : target.Contains n := by
  rw [contains_iff] at contains ⊢
  cases source <;> cases target <;> simp [converts, isSigned, bits] at widens contains ⊢ <;> omega

theorem Contains.promote (contains : ty.Contains n) : ty.promoted.Contains n := by
  rw [contains_iff] at contains ⊢
  cases ty <;> simp [promoted, isSigned, bits] at contains ⊢ <;> omega

theorem Contains.join (contains : left.Contains n) (right : IntType) :
    (left.joined right).Contains n := by
  rw [contains_iff] at contains ⊢
  cases left <;> cases right <;> simp [joined, isSigned, bits] at contains ⊢ <;> omega

theorem joined_comm (left right : IntType) : left.joined right = right.joined left := by
  simp only [joined, or_comm]

end IntType

/-! ## Words -/

section

variable {w : Nat}

theorem toInt_shiftLeft_eq (x : BitVec w) (k : Nat) :
    (x <<< k).toInt = (x.toInt * 2 ^ k).bmod (2 ^ w) := by
  rw [BitVec.toInt_shiftLeft, Nat.shiftLeft_eq, BitVec.toInt_eq_toNat_bmod]
  push_cast
  exact Int.bmod_mul_bmod.symm

theorem toNat_emod_toInt (x : BitVec w) : (x.toInt % (2 ^ w : Nat)).toNat = x.toNat := by
  rw [BitVec.toInt_eq_toNat_bmod, Int.bmod_emod]
  norm_cast
  exact Nat.mod_eq_of_lt x.isLt

/-- A remainder of a power of two is that of the bits. -/
theorem toInt_emod_of_dvd {d : Nat} (x : BitVec w) (divides : d ∣ 2 ^ w) :
    x.toInt % d = (x.toNat % d : Nat) := by
  have divides : (d : Int) ∣ (2 ^ w : Nat) := Int.natCast_dvd_natCast.mpr divides
  rw [BitVec.toInt_eq_toNat_bmod, ← Int.emod_emod_of_dvd _ divides, Int.bmod_emod,
    Int.emod_emod_of_dvd _ divides]
  norm_cast

/-- The signed remainder by a positive number is the distance of a shift. -/
theorem toNat_smod (x d : BitVec w) (pos : 0 < d.toInt) :
    (x.smod d).toNat = (x.toInt % d.toInt).toNat := by
  have reduced : (x.smod d).toInt = x.toInt % d.toInt := by
    rw [BitVec.toInt_smod, Int.fmod_eq_emod_of_nonneg _ pos.le]
  have below : x.toInt % d.toInt < (2 ^ w : Nat) := by
    have := Int.emod_lt_of_pos x.toInt pos
    have := BitVec.toInt_lt (x := d)
    have : (2 : Int) ^ (w - 1) ≤ (2 ^ w : Nat) := by
      push_cast
      exact pow_le_pow_right₀ (by decide) (Nat.sub_le w 1)
    omega
  rw [← toNat_emod_toInt, reduced, Int.emod_eq_of_lt (Int.emod_nonneg _ pos.ne') below]

end

namespace IntType

theorem pattern_int (a : Int32) : IntType.int.pattern a.toInt = a.toBitVec.toNat :=
  toNat_emod_toInt a.toBitVec

theorem pattern_long (a : Int64) : IntType.long.pattern a.toInt = a.toBitVec.toNat :=
  toNat_emod_toInt a.toBitVec

end IntType

namespace IntOp

open IntType

theorem distance_int (b : Int32) :
    distance .int b.toInt = (b.toBitVec.smod 32).toNat ∧
      distance .int b.toInt = (b.toUInt32.toBitVec % 32).toNat := by
  constructor
  · exact (toNat_smod b.toBitVec 32 (by decide)).symm
  · have reduced := toInt_emod_of_dvd (d := 32) b.toBitVec (by decide)
    simp only [distance, bits, BitVec.toNat_umod]
    rw [← Int32.toInt_toBitVec, reduced]
    rfl

theorem distance_long (b : Int32) :
    distance .long b.toInt = (b.toInt64.toBitVec.smod 64).toNat ∧
      distance .long b.toInt = (b.toInt64.toUInt64.toBitVec % 64).toNat := by
  constructor
  · rw [toNat_smod b.toInt64.toBitVec 64 (by decide), Int64.toInt_toBitVec,
      Int32.toInt_toInt64]
    rfl
  · have reduced := toInt_emod_of_dvd (d := 64) b.toInt64.toBitVec (by decide)
    simp only [distance, bits, BitVec.toNat_umod]
    rw [← Int32.toInt_toInt64, ← Int64.toInt_toBitVec, reduced]
    rfl

/-- What an operator computes in `int`. -/
theorem exists_intBinary (op : IntOp) :
    ∃ f : Int32 → Int32 → Int32,
      op.arith.baseOpcode.calculation? = some (.intBinary fun a b => .int (f a b)) ∧
      ∀ a b, (f a b).toInt = op.apply .int a.toInt b.toInt := by
  cases op with
  | add =>
      refine ⟨_, rfl, fun a b => ?_⟩
      simp only [apply, wrap_int, Int32.toInt_add]
  | sub =>
      refine ⟨_, rfl, fun a b => ?_⟩
      simp only [apply, wrap_int, Int32.toInt_sub]
  | mul =>
      refine ⟨_, rfl, fun a b => ?_⟩
      simp only [apply, wrap_int, Int32.toInt_mul]
  | and =>
      refine ⟨_, rfl, fun a b => ?_⟩
      simp only [apply, wrap_int, pattern_int]
      rw [← Int32.toInt_toBitVec, Int32.toBitVec_and, BitVec.toInt_eq_toNat_bmod, BitVec.toNat_and]
  | or =>
      refine ⟨_, rfl, fun a b => ?_⟩
      simp only [apply, wrap_int, pattern_int]
      rw [← Int32.toInt_toBitVec, Int32.toBitVec_or, BitVec.toInt_eq_toNat_bmod, BitVec.toNat_or]
  | xor =>
      refine ⟨_, rfl, fun a b => ?_⟩
      simp only [apply, wrap_int, pattern_int]
      rw [← Int32.toInt_toBitVec, Int32.toBitVec_xor, BitVec.toInt_eq_toNat_bmod, BitVec.toNat_xor]
  | shl =>
      refine ⟨_, rfl, fun a b => ?_⟩
      simp only [apply, wrap_int, (distance_int b).1]
      rw [← Int32.toInt_toBitVec, Int32.toBitVec_shiftLeft, BitVec.shiftLeft_eq',
        toInt_shiftLeft_eq, Int32.toInt_toBitVec]
  | shr =>
      refine ⟨_, rfl, fun a b => ?_⟩
      simp only [apply, (distance_int b).1]
      rw [← Int32.toInt_toBitVec, Int32.toBitVec_shiftRight, BitVec.sshiftRight_eq',
        BitVec.toInt_sshiftRight, Int.shiftRight_eq_div_pow, Int32.toInt_toBitVec]
      norm_cast
  | ushr =>
      refine ⟨_, rfl, fun a b => ?_⟩
      simp only [apply, wrap_int, pattern_int, (distance_int b).2]
      rw [← Int32.toInt_toBitVec, UInt32.toBitVec_toInt32, UInt32.toBitVec_shiftRight,
        BitVec.toInt_eq_toNat_bmod, BitVec.ushiftRight_eq', BitVec.toNat_ushiftRight,
        Nat.shiftRight_eq_div_pow]
      rfl

/-- What an operator other than a shift computes in `long`. -/
theorem exists_longBinary {op : IntOp} (noShift : op.arith.isShift = false) :
    ∃ f : Int64 → Int64 → Int64,
      (op.arith.baseOpcode + 1).calculation? = some (.longBinary fun a b => .long (f a b)) ∧
      ∀ a b, (f a b).toInt = op.apply .long a.toInt b.toInt := by
  cases op with
  | add =>
      refine ⟨_, rfl, fun a b => ?_⟩
      simp only [apply, wrap_long, Int64.toInt_add]
  | sub =>
      refine ⟨_, rfl, fun a b => ?_⟩
      simp only [apply, wrap_long, Int64.toInt_sub]
  | mul =>
      refine ⟨_, rfl, fun a b => ?_⟩
      simp only [apply, wrap_long, Int64.toInt_mul]
  | and =>
      refine ⟨_, rfl, fun a b => ?_⟩
      simp only [apply, wrap_long, pattern_long]
      rw [← Int64.toInt_toBitVec, Int64.toBitVec_and, BitVec.toInt_eq_toNat_bmod, BitVec.toNat_and]
  | or =>
      refine ⟨_, rfl, fun a b => ?_⟩
      simp only [apply, wrap_long, pattern_long]
      rw [← Int64.toInt_toBitVec, Int64.toBitVec_or, BitVec.toInt_eq_toNat_bmod, BitVec.toNat_or]
  | xor =>
      refine ⟨_, rfl, fun a b => ?_⟩
      simp only [apply, wrap_long, pattern_long]
      rw [← Int64.toInt_toBitVec, Int64.toBitVec_xor, BitVec.toInt_eq_toNat_bmod, BitVec.toNat_xor]
  | shl | shr | ushr => contradiction

/-- What a shift computes in `long`; its distance is an `int`. -/
theorem exists_longShift {op : IntOp} (isShift : op.arith.isShift = true) :
    ∃ f : Int64 → Int32 → Int64,
      (op.arith.baseOpcode + 1).calculation? = some (.longShift fun a b => .long (f a b)) ∧
      ∀ a b, (f a b).toInt = op.apply .long a.toInt b.toInt := by
  cases op with
  | shl =>
      refine ⟨_, rfl, fun a b => ?_⟩
      simp only [apply, wrap_long, (distance_long b).1]
      rw [← Int64.toInt_toBitVec, Int64.toBitVec_shiftLeft, BitVec.shiftLeft_eq',
        toInt_shiftLeft_eq, Int64.toInt_toBitVec]
  | shr =>
      refine ⟨_, rfl, fun a b => ?_⟩
      simp only [apply, (distance_long b).1]
      rw [← Int64.toInt_toBitVec, Int64.toBitVec_shiftRight, BitVec.sshiftRight_eq',
        BitVec.toInt_sshiftRight, Int.shiftRight_eq_div_pow, Int64.toInt_toBitVec]
      norm_cast
  | ushr =>
      refine ⟨_, rfl, fun a b => ?_⟩
      simp only [apply, wrap_long, pattern_long, (distance_long b).2]
      rw [← Int64.toInt_toBitVec, UInt64.toBitVec_toInt64, UInt64.toBitVec_shiftRight,
        BitVec.toInt_eq_toNat_bmod, BitVec.ushiftRight_eq', BitVec.toNat_ushiftRight,
        Nat.shiftRight_eq_div_pow]
      rfl
  | add | sub | mul | and | or | xor => contradiction

end IntOp

/-! ## Values -/

namespace IntType

variable {ty source target : IntType} {n : Int}

/-- The word that holds a number of the type. -/
def value (ty : IntType) (n : Int) : Value :=
  if ty = .long then .long (Int64.ofInt n) else .int (Int32.ofInt n)

@[simp]
theorem category_value (ty : IntType) (n : Int) : (ty.value n).category = ty.type.category := by
  cases ty <;> rfl

theorem toInt_ofInt_int (contains : IntType.int.Contains n) : (Int32.ofInt n).toInt = n := by
  rw [Int32.toInt_ofInt]
  exact (wrap_int n).symm.trans contains

theorem toInt_ofInt_long (contains : IntType.long.Contains n) : (Int64.ofInt n).toInt = n := by
  rw [Int64.toInt_ofInt]
  exact (wrap_long n).symm.trans contains

theorem integer?_value (contains : ty.Contains n) : (ty.value n).integer? = some n := by
  by_cases isLong : ty = .long
  · subst isLong
    exact congrArg some (toInt_ofInt_long contains)
  · have fits : IntType.int.Contains n := by
      have := contains.promote
      cases ty <;> first | exact this | contradiction
    simp [value, isLong, Value.integer?, toInt_ofInt_int fits]

theorem value_inj {m : Int} (first : ty.Contains m) (second : ty.Contains n)
    (same : ty.value m = ty.value n) : m = n := by
  have numbers := congrArg Value.integer? same
  rw [integer?_value first, integer?_value second] at numbers
  exact Option.some.inj numbers

@[simp]
theorem value_toInt_int (x : Int32) : IntType.int.value x.toInt = .int x := by
  simp [value]

@[simp]
theorem value_toInt_long (x : Int64) : IntType.long.value x.toInt = .long x := by
  simp [value]

theorem contains_toInt_int (x : Int32) : IntType.int.Contains x.toInt := by
  rw [Contains, wrap_int]
  exact Int32.toInt_ofInt.symm.trans (by rw [Int32.ofInt_toInt])

theorem contains_toInt_long (x : Int64) : IntType.long.Contains x.toInt := by
  rw [Contains, wrap_long]
  exact Int64.toInt_ofInt.symm.trans (by rw [Int64.ofInt_toInt])

theorem contains_boolean_iff : IntType.boolean.Contains n ↔ n = 0 ∨ n = 1 := by
  rw [contains_iff]
  simp only [isSigned, bits, Bool.false_eq_true, if_false]
  omega

end IntType

/-! ## Operators -/

namespace IntOp

open IntType

/-- The type that the right operand is converted to. -/
def rightType (op : IntOp) (ty : IntType) : IntType :=
  if op.arith.isShift then .int else ty

/-- The types that an operator computes in. -/
def ComputesIn (op : IntOp) (ty : IntType) : Prop :=
  ty = .int ∨ ty = .long ∨ ty = .boolean ∧ op.arith.isBitwise = true

/-- On truth values the bitwise operators agree with those on `int`. -/
theorem apply_boolean {op : IntOp} {a b : Int} (bitwise : op.arith.isBitwise = true)
    (left : IntType.boolean.Contains a) (right : IntType.boolean.Contains b) :
    op.apply .boolean a b = op.apply .int a b := by
  rw [contains_boolean_iff] at left right
  rcases left with rfl | rfl <;> rcases right with rfl | rfl <;> cases op <;>
    first | contradiction | rfl

/-- The instruction of an operator computes its result, which is in range. -/
theorem calculates {op : IntOp} {ty : IntType} {a b : Int} (computes : op.ComputesIn ty)
    (left : ty.Contains a) (right : (op.rightType ty).Contains b) :
    ty.Contains (op.apply ty a b) ∧
      ∃ calculation, (op.arith.baseOpcode + Opcode.truncate ty.type.typecode).calculation? =
          some calculation ∧
        ∀ stack, calculation.apply ((op.rightType ty).value b :: ty.value a :: stack) =
          some (ty.value (op.apply ty a b) :: stack) := by
  have inInt {a b : Int} (left : IntType.int.Contains a) (right : IntType.int.Contains b) :
      IntType.int.Contains (op.apply .int a b) ∧
        ∃ calculation, (op.arith.baseOpcode + 0).calculation? = some calculation ∧
          ∀ stack, calculation.apply (IntType.int.value b :: IntType.int.value a :: stack) =
            some (IntType.int.value (op.apply .int a b) :: stack) := by
    obtain ⟨f, isCalculation, result⟩ := op.exists_intBinary
    rw [← toInt_ofInt_int left, ← toInt_ofInt_int right, ← result]
    refine ⟨contains_toInt_int _, _, by rwa [UInt8.add_zero], fun stack => ?_⟩
    simp only [value_toInt_int, Calculation.apply]
  rcases computes with rfl | rfl | ⟨rfl, bitwise⟩
  · have isInt : op.rightType .int = .int := ite_self _
    rw [isInt] at right ⊢
    exact inInt left right
  · cases isShift : op.arith.isShift with
    | true =>
        have isInt : op.rightType .long = .int := if_pos isShift
        rw [isInt] at right ⊢
        obtain ⟨f, isCalculation, result⟩ := exists_longShift isShift
        rw [← toInt_ofInt_long left, ← toInt_ofInt_int right, ← result]
        refine ⟨contains_toInt_long _, _, isCalculation, fun stack => ?_⟩
        simp only [value_toInt_int, value_toInt_long, Calculation.apply]
    | false =>
        have isLong : op.rightType .long = .long := if_neg (by simp [isShift])
        rw [isLong] at right ⊢
        obtain ⟨f, isCalculation, result⟩ := exists_longBinary isShift
        rw [← toInt_ofInt_long left, ← toInt_ofInt_long right, ← result]
        refine ⟨contains_toInt_long _, _, isCalculation, fun stack => ?_⟩
        simp only [value_toInt_long, Calculation.apply]
  · have isBoolean : op.rightType .boolean = .boolean := by
      cases op <;> first | rfl | contradiction
    rw [isBoolean] at right ⊢
    have inRange : IntType.boolean.Contains (op.apply .boolean a b) := by
      cases op <;> first | contradiction | exact contains_wrap _ _
    rw [apply_boolean bitwise left right] at inRange ⊢
    exact ⟨inRange, (inInt left.promote right.promote).2⟩

end IntOp

theorem IntType.negates {ty : IntType} {n : Int} (computes : ty = .int ∨ ty = .long)
    (contains : ty.Contains n) :
    ∃ calculation, (Opcode.ineg + ty.primitive.typecode).calculation? = some calculation ∧
      ∀ stack, calculation.apply (ty.value n :: stack) =
        some (ty.value (ty.wrap (-n)) :: stack) := by
  rcases computes with rfl | rfl
  · refine ⟨_, rfl, fun stack => ?_⟩
    rw [← toInt_ofInt_int contains, wrap_int, ← Int32.toInt_neg]
    simp only [value_toInt_int, Calculation.apply]
  · refine ⟨_, rfl, fun stack => ?_⟩
    rw [← toInt_ofInt_long contains, wrap_long, ← Int64.toInt_neg]
    simp only [value_toInt_long, Calculation.apply]

/-! ## Conversions -/

namespace IntType

open Gen

variable {setting : Setting} {ctx : Context} {source target ty : IntType} {n : Int}

theorem value_of_ne_long (narrow : ty ≠ .long) (n : Int) : ty.value n = .int (Int32.ofInt n) :=
  if_neg narrow

theorem ofInt_eq_of_toInt {a : Int32} (isNumber : a.toInt = n) : Int32.ofInt n = a := by
  rw [← isNumber, Int32.ofInt_toInt]

theorem ofInt_eq_of_toInt_long {a : Int64} (isNumber : a.toInt = n) : Int64.ofInt n = a := by
  rw [← isNumber, Int64.ofInt_toInt]

/-- The step between computational types. -/
theorem computationalStep_runs (source target : IntType) (contains : source.Contains n) :
    Runs setting ((Conversion.computationalStep source.primitive.computational
        target.primitive.computational).toList.map .op)
      [source.value n] [] none [target.promoted.value (target.promoted.wrap n)] := by
  have fits := contains.promote
  by_cases sourceLong : source = .long <;> by_cases targetLong : target = .long
  · subst sourceLong targetLong
    rw [show IntType.long.promoted.wrap n = n from contains]
    exact Runs.nil _
  · subst sourceLong
    have step : Conversion.computationalStep IntType.long.primitive.computational
        target.primitive.computational = some .l2i ∧ target.promoted = .int := by
      cases target <;> first | exact ⟨rfl, rfl⟩ | contradiction
    rw [step.1, step.2]
    apply Runs.of_calculation rfl rfl
    intro stack
    have narrowed : Int32.ofInt (IntType.int.wrap n) = (Int64.ofInt n).toInt32 :=
      ofInt_eq_of_toInt (by rw [Int64.toInt_toInt32, toInt_ofInt_long contains, wrap_int])
    simp [value, narrowed, Calculation.apply]
  · subst targetLong
    have step : Conversion.computationalStep source.primitive.computational
        IntType.long.primitive.computational = some .i2l ∧ source.promoted = .int := by
      cases source <;> first | exact ⟨rfl, rfl⟩ | contradiction
    rw [step.2] at fits
    have widened : Int64.ofInt n = (Int32.ofInt n).toInt64 :=
      ofInt_eq_of_toInt_long (by rw [Int32.toInt_toInt64, toInt_ofInt_int fits])
    rw [step.1, show IntType.long.promoted.wrap n = n from fits.widen rfl,
      value_of_ne_long sourceLong]
    apply Runs.of_calculation rfl rfl
    intro stack
    simp [promoted, value, widened, Calculation.apply]
  · have step : Conversion.computationalStep source.primitive.computational
        target.primitive.computational = none ∧
          source.promoted = .int ∧ target.promoted = .int := by
      cases source <;> cases target <;> first | exact ⟨rfl, rfl, rfl⟩ | contradiction
    rw [step.2.1] at fits
    rw [step.1, step.2.2, show IntType.int.wrap n = n from fits, value_of_ne_long sourceLong]
    exact Runs.nil _

/-- The truncation of an `int` to a narrow type. -/
theorem truncation_runs (number : ty ≠ .boolean) (contains : ty.promoted.Contains n) :
    Runs setting ((Conversion.truncation ty.primitive).toList.map .op) [ty.promoted.value n] [] none
      [ty.value (ty.wrap n)] := by
  cases ty with
  | boolean => contradiction
  | int =>
      rw [show IntType.int.wrap n = n from contains]
      exact Runs.nil _
  | long =>
      rw [show IntType.long.wrap n = n from contains]
      exact Runs.nil _
  | byte =>
      apply Runs.of_calculation rfl rfl
      intro stack
      have truncated : Int32.ofInt (IntType.byte.wrap n) = (Int32.ofInt n).toInt8.toInt32 :=
        ofInt_eq_of_toInt (by
          rw [Int8.toInt_toInt32, Int32.toInt_toInt8, toInt_ofInt_int contains]
          exact (if_pos rfl).symm)
      simp [promoted, value, truncated, Calculation.apply]
  | short =>
      apply Runs.of_calculation rfl rfl
      intro stack
      have truncated : Int32.ofInt (IntType.short.wrap n) = (Int32.ofInt n).toInt16.toInt32 :=
        ofInt_eq_of_toInt (by
          rw [Int16.toInt_toInt32, Int32.toInt_toInt16, toInt_ofInt_int contains]
          exact (if_pos rfl).symm)
      simp [promoted, value, truncated, Calculation.apply]
  | char =>
      apply Runs.of_calculation rfl rfl
      intro stack
      have truncated : IntType.char.wrap n = (Int32.ofInt n).toInt % 65536 := by
        rw [toInt_ofInt_int contains]
        rfl
      simp [promoted, value, truncated, Calculation.apply]

/-- The conversions between different types. -/
theorem instrs_conversion (differ : source ≠ target)
    (legal : conversion ctx source.type target.type ≠ .illegal) :
    target ≠ .boolean ∧ (conversion ctx source.type target.type).instrs source.type target.type =
      Conversion.primitiveInstrs source.primitive target.primitive := by
  cases narrow : ctx.config.narrowReinterpretation <;> cases source <;> cases target <;>
    first
    | contradiction
    | simp [conversion, Conversion.classify, Conversion.ofPrimitives, narrow, primitive,
        Conversion.isReinterpreted, Conversion.rank, Conversion.instrs, JType.asPrimitive?,
        JType.isVoid] at legal ⊢

/-- A legal conversion wraps the number into the target's range. -/
theorem conversion_runs (legal : conversion ctx source.type target.type ≠ .illegal)
    (contains : source.Contains n) :
    Runs setting ((conversion ctx source.type target.type).instrs source.type target.type)
      [source.value n] [] none [target.value (target.wrap n)] := by
  by_cases same : source = target
  · subst same
    rw [show source.wrap n = n from contains]
    exact unconverted_runs ctx source.type _
  obtain ⟨number, instrs⟩ := instrs_conversion same legal
  rw [instrs, Conversion.primitiveInstrs, List.map_append]
  have step : Runs setting _ _ _ _ _ := computationalStep_runs source target contains
  by_cases fits : source.primitive = target.primitive ∨
      source.primitive = .byte ∧ target.primitive = .short
  · obtain ⟨rfl, rfl⟩ : source = .byte ∧ target = .short := by
      cases source <;> cases target <;> simp_all [primitive]
    rw [show IntType.short.wrap n = n from contains.widen rfl]
    exact Runs.nil _
  · simp only [fits, if_false]
    have whole := step.append (truncation_runs number (contains_wrap target.promoted n))
    rwa [wrap_wrap_of_le (by cases target <;> decide)] at whole

/-! ## Type rules -/

@[simp]
theorem isVoid_type (ty : IntType) : ty.type.isVoid = false :=
  rfl

theorem primitive_injective : Function.Injective primitive := by
  intro first second same
  cases first <;> cases second <;> first | rfl | contradiction

theorem type_inj : source.type = target.type ↔ source = target := by
  simp [type, primitive_injective.eq_iff]

theorem isImplicit_conversion (ctx : Context) (source target : IntType) :
    (conversion ctx source.type target.type).isImplicit =
      converts ctx.config.narrowReinterpretation source target := by
  cases narrow : ctx.config.narrowReinterpretation <;> cases source <;> cases target <;>
    simp [conversion, Conversion.classify, Conversion.ofPrimitives, narrow, primitive, converts,
      Conversion.isReinterpreted, Conversion.rank, Conversion.isImplicit, JType.isVoid]

theorem legal_of_isImplicit {conversion : Conversion} (implicit : conversion.isImplicit = true) :
    conversion ≠ .illegal := by
  rintro rfl
  contradiction

theorem common_type {common : JType}
    (agreed : JType.common ctx.table ctx.config.narrowReinterpretation source.type target.type =
      .ok common) :
    ∃ ty, common? ctx.config.narrowReinterpretation source target = some ty ∧ common = ty.type := by
  have forward := isImplicit_conversion ctx source target
  have backward := isImplicit_conversion ctx target source
  unfold conversion at forward backward
  unfold JType.common at agreed
  rw [forward, backward] at agreed
  unfold common?
  by_cases same : source = target
  · subst same
    rw [if_pos rfl] at agreed
    cases agreed
    exact ⟨source, by cases source <;> simp [converts], rfl⟩
  · rw [if_neg (mt type_inj.mp same)] at agreed
    cases first : converts ctx.config.narrowReinterpretation source target <;>
      cases second : converts ctx.config.narrowReinterpretation target source <;>
      simp [first, second, JType.isPrimitive] at agreed ⊢ <;> exact agreed.symm

theorem unaryPromotion?_type {p : Primitive} (promotes : ty.type.unaryPromotion? = some p) :
    p = ty.promoted.primitive := by
  cases ty <;> cases promotes <;> rfl

theorem binaryPromotion?_type {p : Primitive} {left right : IntType}
    (promotes : JType.binaryPromotion? left.type right.type = some p) :
    p = (left.joined right).primitive := by
  cases left <;> cases right <;> cases promotes <;> rfl

end IntType

namespace IntOp

open IntType Gen

variable {op : IntOp} {left right : IntType} {n : Int}

/-- The types that the operands of an operator are converted to. -/
theorem operandTypes?_type {result converted : JType}
    (types : operandTypes? op.arith left.type right.type = some (result, converted)) :
    op.ComputesIn (op.resultType left right) ∧ result = (op.resultType left right).type ∧
      converted = (op.rightType (op.resultType left right)).type := by
  rcases operandTypes?_cases types with ⟨isShift, p, -, rfl, rfl, promotes⟩ |
    ⟨bitwise, leftBoolean, rightBoolean, rfl, rfl⟩ | ⟨p, noShift, -, rfl, rfl, promotes⟩
  · obtain rfl := unaryPromotion?_type promotes
    have isResult : op.resultType left right = left.promoted := by
      cases op <;> first | rfl | contradiction
    rw [isResult, rightType, if_pos isShift]
    exact ⟨by cases left <;> simp [ComputesIn, promoted], rfl, rfl⟩
  · obtain rfl : left = .boolean := by cases left <;> first | rfl | contradiction
    obtain rfl : right = .boolean := by cases right <;> first | rfl | contradiction
    have isResult : op.resultType .boolean .boolean = .boolean := by
      cases op <;> first | rfl | contradiction
    have noShift : op.arith.isShift = false := by cases op <;> first | rfl | contradiction
    rw [isResult, rightType, if_neg (by simp [noShift])]
    exact ⟨.inr (.inr ⟨rfl, bitwise⟩), rfl, rfl⟩
  · obtain rfl := binaryPromotion?_type promotes
    have number : left ≠ .boolean := by
      rintro rfl
      cases right <;> contradiction
    have isResult : op.resultType left right = left.joined right := by
      cases op <;> first | contradiction | simp [resultType, number]
    rw [isResult, rightType, if_neg (by simp [noShift])]
    refine ⟨?_, rfl, rfl⟩
    unfold joined
    split
    · exact .inr (.inl rfl)
    · exact .inl rfl

theorem contains_left (contains : left.Contains n) : (op.resultType left right).Contains n := by
  cases op with
  | shl | shr | ushr => exact contains.promote
  | add | sub | mul => exact contains.join right
  | and | or | xor =>
      by_cases booleans : left = .boolean ∧ right = .boolean
      · simpa only [resultType, booleans, and_self, if_true] using booleans.1 ▸ contains
      · simpa only [resultType, booleans, if_false] using contains.join right

theorem resultType_comm (noShift : op.arith.isShift = false) :
    op.resultType left right = op.resultType right left := by
  cases op <;> first | contradiction | simp only [resultType, joined_comm left, and_comm]

/-- A right operand that is converted without a cast keeps its number. -/
theorem contains_right {narrow : Bool}
    (implicit : converts narrow right (op.rightType (op.resultType left right)) = true)
    (contains : right.Contains n) : (op.rightType (op.resultType left right)).Contains n := by
  unfold rightType at implicit ⊢
  cases isShift : op.arith.isShift with
  | true =>
      rw [isShift, if_pos rfl] at implicit
      apply contains.widen
      cases right <;> first | rfl | contradiction
  | false => exact resultType_comm isShift ▸ contains_left contains

end IntOp

end JvmAssembler
