import Mathlib
import JvmAssembler.Proofs.Category
import JvmAssembler.Proofs.Labels

/-!
# Running instruction lists

A machine for instruction lists with symbolic labels.  It computes with machine
words, compares floating-point data by the numbers they stand for, and keeps
local variables in slots, of which a wide value takes two.  A branch continues
after its label, or leaves the list if the label is not in it.

Instructions that touch the heap or may fail are left out: they stop the
machine.  A run records the instructions it executes.
-/

namespace JvmAssembler

/-! ## Values -/

/-- A reference; objects are told apart by number. -/
inductive Reference where
  | null
  | text (value : String)
  | object (number : Nat)
  deriving DecidableEq

/-- An operand or the content of a local variable. -/
inductive Value where
  | int (value : Int32)
  | long (value : Int64)
  | float (value : Binary32)
  | double (value : Binary64)
  | reference (value : Reference)
  deriving DecidableEq

namespace Value

def category : Value → Category
  | .int _ => .int
  | .long _ => .long
  | .float _ => .float
  | .double _ => .double
  | .reference _ => .reference

def ofLiteral : Literal → Value
  | .int value => .int value
  | .long value => .long value
  | .float value => .float value
  | .double value => .double value
  | .string value => .reference (.text value)

@[simp]
theorem category_ofLiteral (literal : Literal) :
    (ofLiteral literal).category = literal.type.category := by
  cases literal <;> rfl

end Value

namespace BinaryValue

/-- A finite number in units of `2 ^ unit`, where `unit ≤ exponent`. -/
def inUnits (unit : Int) (negative : Bool) (significand : Nat) (exponent : Int) : Int :=
  let magnitude : Int := significand * 2 ^ (exponent - unit).toNat
  if negative then -magnitude else magnitude

/-- The order of two numbers; a pattern that is not a number has none. -/
def order? : BinaryValue → BinaryValue → Option Ordering
  | .nan, _ | _, .nan => none
  | .infinite negative, .infinite negative' => some (compare (!negative) (!negative'))
  | .infinite negative, .finite .. => some (if negative then .lt else .gt)
  | .finite .., .infinite negative => some (if negative then .gt else .lt)
  | .finite negative m e _, .finite negative' m' e' _ =>
      let unit := min e e'
      some (compare (inUnits unit negative m e) (inUnits unit negative' m' e'))

end BinaryValue

/-- An order as the machine's comparisons return it. -/
def signOf : Ordering → Int32
  | .lt => -1
  | .eq => 0
  | .gt => 1

/-! ## Instructions on operands -/

/-- What an instruction computes from operands of fixed categories.  Binary
functions take the operand below the top first. -/
inductive Calculation where
  | constant (value : Value)
  | intUnary (f : Int32 → Value)
  | longUnary (f : Int64 → Value)
  | intBinary (f : Int32 → Int32 → Value)
  | longBinary (f : Int64 → Int64 → Value)
  | longShift (f : Int64 → Int32 → Value)
  | floatBinary (f : Binary32 → Binary32 → Value)
  | doubleBinary (f : Binary64 → Binary64 → Value)

/-- The stack after a calculation, if it finds its operands. -/
def Calculation.apply : Calculation → List Value → Option (List Value)
  | .constant value, stack => some (value :: stack)
  | .intUnary f, .int a :: stack => some (f a :: stack)
  | .longUnary f, .long a :: stack => some (f a :: stack)
  | .intBinary f, .int b :: .int a :: stack => some (f a b :: stack)
  | .longBinary f, .long b :: .long a :: stack => some (f a b :: stack)
  | .longShift f, .int b :: .long a :: stack => some (f a b :: stack)
  | .floatBinary f, .float b :: .float a :: stack => some (f a b :: stack)
  | .doubleBinary f, .double b :: .double a :: stack => some (f a b :: stack)
  | _, _ => none

/-- When a branch is taken. -/
inductive Test where
  | always
  /-- An `int` stands in this relation to zero. -/
  | zero (op : RelOp)
  | int (op : RelOp)
  | identity (equal : Bool)
  | null (wanted : Bool)
  deriving DecidableEq

/-- Whether a branch is taken, and the stack after it. -/
def Test.apply : Test → List Value → Option (Bool × List Value)
  | .always, stack => some (true, stack)
  | .zero op, .int a :: stack => some (op.holds (compare a.toInt 0), stack)
  | .int op, .int b :: .int a :: stack => some (op.holds (compare a.toInt b.toInt), stack)
  | .identity equal, .reference b :: .reference a :: stack => some ((a = b) = equal, stack)
  | .null wanted, .reference a :: stack => some ((a = .null) = wanted, stack)
  | _, _ => none

namespace Opcode

/-- The calculation of an instruction without operands of its own. -/
def calculation? (code : Opcode) : Option Calculation :=
  if code = aconstNull then some (.constant (.reference .null))
  else if aconstNull < code && code < lconst0 then
    some (.constant (.int (Int32.ofInt (code.toNat - iconst0.toNat))))
  else if code = lconst0 then some (.constant (.long 0))
  else if code = lconst0 + 1 then some (.constant (.long 1))
  else if code = fconst0 then some (.constant (.float ⟨0x00000000⟩))
  else if code = fconst0 + 1 then some (.constant (.float ⟨0x3f800000⟩))
  else if code = fconst0 + 2 then some (.constant (.float ⟨0x40000000⟩))
  else if code = dconst0 then some (.constant (.double ⟨0x0000000000000000⟩))
  else if code = dconst0 + 1 then some (.constant (.double ⟨0x3ff0000000000000⟩))
  else if code = iadd then some (.intBinary fun a b => .int (a + b))
  else if code = iadd + 1 then some (.longBinary fun a b => .long (a + b))
  else if code = isub then some (.intBinary fun a b => .int (a - b))
  else if code = isub + 1 then some (.longBinary fun a b => .long (a - b))
  else if code = imul then some (.intBinary fun a b => .int (a * b))
  else if code = imul + 1 then some (.longBinary fun a b => .long (a * b))
  else if code = ineg then some (.intUnary fun a => .int (-a))
  else if code = ineg + 1 then some (.longUnary fun a => .long (-a))
  -- A shift uses the low five or six bits of its distance.
  else if code = ishl then some (.intBinary fun a b => .int (a <<< b))
  else if code = ishl + 1 then some (.longShift fun a b => .long (a <<< b.toInt64))
  else if code = ishr then some (.intBinary fun a b => .int (a >>> b))
  else if code = ishr + 1 then some (.longShift fun a b => .long (a >>> b.toInt64))
  else if code = iushr then
    some (.intBinary fun a b => .int (a.toUInt32 >>> b.toUInt32).toInt32)
  else if code = iushr + 1 then
    some (.longShift fun a b => .long (a.toUInt64 >>> b.toInt64.toUInt64).toInt64)
  else if code = iand then some (.intBinary fun a b => .int (a &&& b))
  else if code = iand + 1 then some (.longBinary fun a b => .long (a &&& b))
  else if code = ior then some (.intBinary fun a b => .int (a ||| b))
  else if code = ior + 1 then some (.longBinary fun a b => .long (a ||| b))
  else if code = ixor then some (.intBinary fun a b => .int (a ^^^ b))
  else if code = ixor + 1 then some (.longBinary fun a b => .long (a ^^^ b))
  else if code = i2l then some (.intUnary fun a => .long a.toInt64)
  else if code = l2i then some (.longUnary fun a => .int a.toInt32)
  else if code = i2b then some (.intUnary fun a => .int a.toInt8.toInt32)
  else if code = i2s then some (.intUnary fun a => .int a.toInt16.toInt32)
  else if code = i2c then some (.intUnary fun a => .int (Int32.ofInt (a.toInt % 65536)))
  else if code = lcmp then
    some (.longBinary fun a b => .int (signOf (compare a.toInt b.toInt)))
  else if code = fcmpl then
    some (.floatBinary fun a b => .int (signOf ((a.value.order? b.value).getD .lt)))
  else if code = fcmpg then
    some (.floatBinary fun a b => .int (signOf ((a.value.order? b.value).getD .gt)))
  else if code = dcmpl then
    some (.doubleBinary fun a b => .int (signOf ((a.value.order? b.value).getD .lt)))
  else if code = dcmpg then
    some (.doubleBinary fun a b => .int (signOf ((a.value.order? b.value).getD .gt)))
  else none

/-- The test of a branch. -/
def test? (code : Opcode) : Option Test :=
  if code = goto then some .always
  else if code = ifnull then some (.null true)
  else if code = ifnonnull then some (.null false)
  else if code = ifAcmpeq then some (.identity true)
  else if code = ifAcmpne then some (.identity false)
  else if code < ifIcmpeq then
    (RelOp.all.find? fun op => op.zeroBranch = code).map .zero
  else (RelOp.all.find? fun op => op.intBranch = code).map .int

end Opcode

@[simp]
theorem RelOp.test?_zeroBranch (op : RelOp) : op.zeroBranch.test? = some (.zero op) := by
  cases op <;> rfl

@[simp]
theorem RelOp.test?_intBranch (op : RelOp) : op.intBranch.test? = some (.int op) := by
  cases op <;> rfl

/-! ## Local variables -/

/-- The contents of the local slots. -/
abbrev Store := Slot → Option Value

/-- Write a value.  A wide value takes the next slot too, and what overlaps the
written slots is lost. -/
def Store.set (store : Store) (slot : Slot) (value : Value) : Store := fun other =>
  if other = slot then some value
  else if value.category.isWide && other.toNat = slot.toNat + 1 then none
  else if other.toNat + 1 = slot.toNat && (store other).any (·.category.isWide) then none
  else store other

/-! ## Steps -/

/-- How an instruction continues. -/
inductive Action where
  | go (stack : List Value) (store : Store)
  | jump (target : Label) (stack : List Value)
  | finish (result : Option Value)

/-- What an instruction does with a stack and a store. -/
def Instr.act (stack : List Value) (store : Store) : Instr → Option Action
  | .op code =>
      match code.calculation? with
      | some calculation => (calculation.apply stack).map (.go · store)
      | none =>
          if code = .returnVoid then some (.finish none)
          else if Opcode.ireturn ≤ code && code < Opcode.returnVoid then
            stack.head?.bind fun value =>
              if value.category = Opcode.familyCategory (code - Opcode.ireturn) then
                some (.finish (some value))
              else none
          else none
  | .int code operand =>
      if code = .bipush || code = .sipush then some (.go (.int operand :: stack) store) else none
  | .ldc literal => some (.go (Value.ofLiteral literal :: stack) store)
  | .jump code target =>
      (code.test?.bind fun test => test.apply stack).map fun (taken, rest) =>
        if taken then .jump target rest else .go rest store
  | .label _ => some (.go stack store)
  | .var code slot =>
      if Opcode.iload ≤ code && code ≤ Opcode.aload then
        (store slot).bind fun value =>
          if value.category = Opcode.familyCategory (code - Opcode.iload) then
            some (.go (value :: stack) store)
          else none
      else if Opcode.istore ≤ code && code ≤ Opcode.astore then
        stack.head?.bind fun value =>
          if value.category = Opcode.familyCategory (code - Opcode.istore) then
            some (.go stack.tail (store.set slot value))
          else none
      else none
  | .type .. | .member .. => none

/-- Where a run stands: before instructions of the list, outside of it after a
branch to a label that is not in it, or at its end. -/
inductive Point where
  | code (rest : List Instr)
  | left (target : Label)
  | done (result : Option Value)
  deriving DecidableEq

/-- The instructions after a label. -/
def afterLabel? (target : Label) : List Instr → Option (List Instr)
  | [] => none
  | instr :: rest => if instr = .label target then some rest else afterLabel? target rest

/-- Where a branch in a program goes. -/
def destination (program : List Instr) (target : Label) : Point :=
  match afterLabel? target program with
  | some rest => .code rest
  | none => .left target

/-- The state of a run. -/
structure Machine where
  point : Point
  stack : List Value
  store : Store

/-- Execute one instruction. -/
def Machine.step? (program : List Instr) (machine : Machine) : Option (Instr × Machine) :=
  match machine.point with
  | .code (instr :: rest) =>
      (instr.act machine.stack machine.store).map fun
        | .go stack store => (instr, ⟨.code rest, stack, store⟩)
        | .jump target stack => (instr, ⟨destination program target, stack, machine.store⟩)
        | .finish result => (instr, ⟨.done result, [], machine.store⟩)
  | _ => none

/-- A run of a program, with the instructions it executes. -/
inductive Exec (program : List Instr) : Machine → List Instr → Machine → Prop where
  | refl (machine : Machine) : Exec program machine [] machine
  | step {machine next last : Machine} {instr : Instr} {trace : List Instr}
      (first : machine.step? program = some (instr, next)) (rest : Exec program next trace last) :
      Exec program machine (instr :: trace) last

namespace Exec

variable {program : List Instr} {first middle last : Machine} {trace trace' : List Instr}

theorem trans (left : Exec program first trace middle) (right : Exec program middle trace' last) :
    Exec program first (trace ++ trace') last := by
  induction left with
  | refl => exact right
  | step first _ ih => exact .step first (ih right)

/-- The shorter of two runs from one state is the beginning of the
longer one. -/
theorem continue_of_le {first last last' : Machine} (short : Exec program first trace last)
    (long : Exec program first trace' last') (shorter : trace.length ≤ trace'.length) :
    ∃ rest, trace' = trace ++ rest ∧ Exec program last rest last' := by
  induction short generalizing trace' with
  | refl => exact ⟨trace', rfl, long⟩
  | step stepped _ ih =>
      cases long with
      | refl => simp at shorter
      | step stepped' rest =>
          obtain ⟨rfl, rfl⟩ : _ = _ ∧ _ = _ := by simpa using stepped.symm.trans stepped'
          obtain ⟨tail, rfl, run⟩ := ih rest (by simpa using shorter)
          exact ⟨tail, rfl, run⟩

/-- Runs that stop where no instruction can be executed end alike. -/
theorem eq_of_halted {last' : Machine} (one : Exec program first trace last)
    (other : Exec program first trace' last') (halted : last.step? program = none)
    (halted' : last'.step? program = none) : trace = trace' ∧ last = last' := by
  have stays : ∀ {machine target : Machine} {rest : List Instr}, machine.step? program = none →
      Exec program machine rest target → rest = [] ∧ target = machine := by
    intro machine target rest halted run
    cases run with
    | refl => exact ⟨rfl, rfl⟩
    | step stepped _ => simp [halted] at stepped
  rcases Nat.le_total trace.length trace'.length with shorter | longer
  · obtain ⟨rest, rfl, run⟩ := one.continue_of_le other shorter
    obtain ⟨rfl, rfl⟩ := stays halted run
    simp
  · obtain ⟨rest, rfl, run⟩ := other.continue_of_le one longer
    obtain ⟨rfl, rfl⟩ := stays halted' run
    simp

end Exec

/-! ## Code inside a program -/

theorem afterLabel?_append {code rest : List Instr} {label : Label}
    (unplaced : label ∉ placed code) :
    afterLabel? label (code ++ rest) = afterLabel? label rest := by
  induction code with
  | nil => rfl
  | cons instr code ih =>
      have differs : instr ≠ .label label := by
        rintro rfl
        simp [placed, Instr.placed?] at unplaced
      have unplacedRest : label ∉ placed code := by
        intro mem
        exact unplaced (by
          simpa using (placed_append [instr] code) ▸ List.mem_append_right _ mem)
      simpa [afterLabel?, differs] using ih unplacedRest

/-- A branch to a label that is not in the program leaves it. -/
theorem destination_eq_left {program : List Instr} {label : Label}
    (unplaced : label ∉ placed program) : destination program label = .left label := by
  have seeking : afterLabel? label (program ++ []) = none := afterLabel?_append unplaced
  rw [List.append_nil] at seeking
  simp [destination, seeking]

/-- Code stands in a program that places no label twice, with `rest` after it. -/
structure Within (program code rest : List Instr) : Prop where
  nodup : (placed program).Nodup
  located : code ++ rest <:+ program

namespace Within

variable {program first second rest : List Instr} {label : Label}

theorem left (within : Within program (first ++ second) rest) :
    Within program first (second ++ rest) where
  nodup := within.nodup
  located := by simpa using within.located

theorem right (within : Within program (first ++ second) rest) : Within program second rest where
  nodup := within.nodup
  located := (List.suffix_append first (second ++ rest)).trans (by simpa using within.located)

/-- A branch to a label in the program continues after it. -/
theorem destination_eq (within : Within program (.label label :: second) rest) :
    destination program label = .code (second ++ rest) := by
  obtain ⟨before, rfl⟩ := within.located
  have unplaced : label ∉ placed before := by
    have nodup := within.nodup
    intro mem
    have later : label ∈ placed (.label label :: second ++ rest) := by
      simp [placed, Instr.placed?]
    rw [placed_append, List.nodup_append] at nodup
    exact nodup.2.2 label mem label later rfl
  simp [destination, afterLabel?_append unplaced, afterLabel?]

end Within

end JvmAssembler
