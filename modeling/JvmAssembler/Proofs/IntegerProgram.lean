import Mathlib
import JvmAssembler.Method

/-!
# Structured integer programs

A language of expressions, conditions and statements over the integral types,
with an evaluator that knows nothing of instructions, slots and labels.  Values
are whole numbers.  Variables have lexical scope; operands are promoted;
arithmetic and conversions wrap around into the range of their type.

A program is written as a method body.  Evaluation is bounded by the number of
rounds that a loop may make; a program diverges if no bound is enough.
-/

namespace JvmAssembler

/-! ## Types -/

/-- The integral types, and `boolean` with the numbers 0 and 1. -/
inductive IntType where
  | boolean
  | byte
  | short
  | char
  | int
  | long
  deriving DecidableEq

namespace IntType

def primitive : IntType → Primitive
  | .boolean => .boolean
  | .byte => .byte
  | .short => .short
  | .char => .char
  | .int => .int
  | .long => .long

abbrev type (ty : IntType) : JType :=
  .primitive ty.primitive

def bits : IntType → Nat
  | .boolean => 1
  | .byte => 8
  | .short | .char => 16
  | .int => 32
  | .long => 64

def isSigned : IntType → Bool
  | .boolean | .char => false
  | _ => true

/-- The number of the type that has the same low bits. -/
def wrap (ty : IntType) (n : Int) : Int :=
  if ty.isSigned then n.bmod (2 ^ ty.bits) else n % (2 ^ ty.bits : Nat)

/-- The number is in the range of the type. -/
def Contains (ty : IntType) (n : Int) : Prop :=
  ty.wrap n = n

instance (ty : IntType) (n : Int) : Decidable (ty.Contains n) :=
  inferInstanceAs (Decidable (_ = _))

/-- The low bits of a number. -/
def pattern (ty : IntType) (n : Int) : Nat :=
  (n % (2 ^ ty.bits : Nat)).toNat

/-- The type that a single operand is promoted to. -/
def promoted : IntType → IntType
  | .long => .long
  | _ => .int

/-- The type that two operands are promoted to. -/
def joined (left right : IntType) : IntType :=
  if left = .long ∨ right = .long then .long else .int

/-- The conversions that need no cast; `narrow` is whether `short` and `char`
may stand for each other, and `byte` for `char`. -/
def converts (narrow : Bool) : IntType → IntType → Bool
  | .byte, .short | .byte, .int | .short, .int | .char, .int => true
  | .byte, .long | .short, .long | .char, .long | .int, .long => true
  | .short, .char | .char, .short | .byte, .char => narrow
  | source, target => source = target

/-- The type that the arms of a conditional agree on. -/
def common? (narrow : Bool) (first second : IntType) : Option IntType :=
  if converts narrow second first then some first
  else if converts narrow first second then some second
  else none

end IntType

/-! ## Operators -/

/-- The binary operators that always have a result. -/
inductive IntOp where
  | add
  | sub
  | mul
  | and
  | or
  | xor
  | shl
  | shr
  | ushr
  deriving DecidableEq

namespace IntOp

def arith : IntOp → ArithOp
  | .add => .add
  | .sub => .sub
  | .mul => .mul
  | .and => .and
  | .or => .or
  | .xor => .xor
  | .shl => .shl
  | .shr => .shr
  | .ushr => .ushr

/-- The type in which operands of these types are computed.  A shift promotes its
left operand alone. -/
def resultType (op : IntOp) (left right : IntType) : IntType :=
  match op with
  | .shl | .shr | .ushr => left.promoted
  | .and | .or | .xor =>
      if left = .boolean ∧ right = .boolean then .boolean else left.joined right
  | .add | .sub | .mul => left.joined right

/-- The distance of a shift, which counts modulo the number of bits. -/
def distance (ty : IntType) (n : Int) : Nat :=
  (n % ty.bits).toNat

/-- The result in a type. -/
def apply (op : IntOp) (ty : IntType) (a b : Int) : Int :=
  match op with
  | .add => ty.wrap (a + b)
  | .sub => ty.wrap (a - b)
  | .mul => ty.wrap (a * b)
  | .and => ty.wrap (ty.pattern a &&& ty.pattern b : Nat)
  | .or => ty.wrap (ty.pattern a ||| ty.pattern b : Nat)
  | .xor => ty.wrap (ty.pattern a ^^^ ty.pattern b : Nat)
  | .shl => ty.wrap (a * 2 ^ distance ty b)
  | .shr => a / 2 ^ distance ty b
  | .ushr => ty.wrap (ty.pattern a / 2 ^ distance ty b : Nat)

end IntOp

/-! ## Programs -/

mutual

/-- An expression. -/
inductive IntExpr where
  | load (name : String)
  | int (value : Int32)
  | long (value : Int64)
  | boolean (value : Bool)
  | arith (op : IntOp) (left right : IntExpr)
  | negate (operand : IntExpr)
  | cast (target : IntType) (operand : IntExpr)
  | conditional (cond : IntCond) (thenArm elseArm : IntExpr)
  | condValue (cond : IntCond)

/-- A condition. -/
inductive IntCond where
  | const (value : Bool)
  | truth (value : IntExpr)
  | falsity (value : IntExpr)
  | compare (op : RelOp) (left right : IntExpr) (nan : Bool)
  | conj (parts : List IntCond)
  | disj (parts : List IntCond)

end

/-- A statement. -/
inductive IntStmt where
  | declare (name : String) (type : IntType) (init : IntExpr)
  | store (name : String) (value : IntExpr)
  | increment (name : String) (step : Int32)
  | block (body : List IntStmt)
  | ifThen (cond : IntCond) (body : List IntStmt)
  | ifElse (cond : IntCond) (body otherwise : List IntStmt)
  | whileLoop (cond : IntCond) (body : List IntStmt)
  | returnValue (value : IntExpr)

/-- A program with parameters, which returns a number. -/
structure IntProgram where
  params : List (String × IntType)
  result : IntType
  body : List IntStmt

/-! ## Programs as method bodies -/

mutual

/-- The fragment that stands for an expression. -/
def IntExpr.ops : IntExpr → Fragment
  | .load name => [.load (.named name)]
  | .int value => [.constant (.int value)]
  | .long value => [.constant (.long value)]
  | .boolean value => [.boolean value]
  | .arith op left right => left.ops ++ [.arith op.arith right.ops]
  | .negate operand => operand.ops ++ [.negate]
  | .cast target operand => operand.ops ++ [.cast target.type]
  | .conditional cond thenArm elseArm => [.conditional cond.cond thenArm.ops elseArm.ops]
  | .condValue cond => [.condValue cond.cond]

def IntCond.cond : IntCond → Cond
  | .const value => .const value
  | .truth value => .truth value.ops
  | .falsity value => .falsity value.ops
  | .compare op left right nan => .compare op left.ops right.ops nan
  | .conj parts => .conj (condsOf parts)
  | .disj parts => .disj (condsOf parts)

def condsOf : List IntCond → List Cond
  | [] => []
  | part :: rest => part.cond :: condsOf rest

end

mutual

/-- The operations that stand for a statement. -/
def IntStmt.ops : IntStmt → Fragment
  | .declare name type init => [.declare name type.type init.ops]
  | .store name value => [.store (.named name) value.ops]
  | .increment name step => [.increment (.named name) step]
  | .block body => [.block (opsOf body)]
  | .ifThen cond body => [.ifThen cond.cond (opsOf body)]
  | .ifElse cond body otherwise => [.ifElse cond.cond (opsOf body) (opsOf otherwise)]
  | .whileLoop cond body => [.whileLoop cond.cond (opsOf body)]
  | .returnValue value => value.ops ++ [.returnValue]

def opsOf : List IntStmt → Fragment
  | [] => []
  | stmt :: rest => stmt.ops ++ opsOf rest

end

/-- The method has the program's parameters and result, and the program as its
body. -/
structure IntProgram.IsBodyOf (program : IntProgram) (spec : MethodSpec) : Prop where
  params_eq : spec.params = program.params.map fun param => (param.1, param.2.type)
  result_eq : spec.result = program.result.type
  body_eq : spec.body = opsOf program.body

/-! ## The receiver

The name of the receiver of an instance method stands for no number, unless a
parameter or variable of the same name hides it. -/

def receiverName : String :=
  "this"

mutual

/-- The names that an expression loads. -/
def IntExpr.loads : IntExpr → List String
  | .load name => [name]
  | .int _ | .long _ | .boolean _ => []
  | .arith _ left right => left.loads ++ right.loads
  | .negate operand | .cast _ operand => operand.loads
  | .conditional cond thenArm elseArm => cond.loads ++ thenArm.loads ++ elseArm.loads
  | .condValue cond => cond.loads

def IntCond.loads : IntCond → List String
  | .const _ => []
  | .truth value | .falsity value => value.loads
  | .compare _ left right _ => left.loads ++ right.loads
  | .conj parts | .disj parts => loadsInParts parts

def loadsInParts : List IntCond → List String
  | [] => []
  | part :: rest => part.loads ++ loadsInParts rest

end

/-- A variable has the receiver's name. -/
def hidesReceiver (scope : List (String × IntType)) : Bool :=
  scope.any fun v => v.1 == receiverName

/-- The variables that a statement declares for those after it. -/
def IntStmt.declared : IntStmt → List (String × IntType)
  | .declare name type _ => [(name, type)]
  | _ => []

mutual

/-- The receiver is not used, or `hidden` by a variable. -/
def IntStmt.sparesReceiver (hidden : Bool) : IntStmt → Bool
  | .declare _ _ value | .returnValue value => hidden || !value.loads.contains receiverName
  | .store name value => hidden || !(name :: value.loads).contains receiverName
  | .increment name _ => hidden || name != receiverName
  | .block body => bodySparesReceiver hidden body
  | .ifThen cond body | .whileLoop cond body =>
      (hidden || !cond.loads.contains receiverName) && bodySparesReceiver hidden body
  | .ifElse cond body otherwise =>
      (hidden || !cond.loads.contains receiverName) && bodySparesReceiver hidden body &&
        bodySparesReceiver hidden otherwise

def bodySparesReceiver (hidden : Bool) : List IntStmt → Bool
  | [] => true
  | stmt :: rest =>
      stmt.sparesReceiver hidden && bodySparesReceiver (hidden || hidesReceiver stmt.declared) rest

end

def IntProgram.sparesReceiver (program : IntProgram) : Bool :=
  bodySparesReceiver (hidesReceiver program.params) program.body

/-! ## Evaluation -/

/-- A variable with its present value. -/
structure IntVar where
  name : String
  type : IntType
  value : Int

/-- The variables in scope, innermost first. -/
abbrev IntEnv := List IntVar

namespace IntEnv

/-- The innermost variable of a name. -/
def lookup? (env : IntEnv) (name : String) : Option IntVar :=
  env.find? fun v => v.name = name

/-- Give the innermost variable of a name a new value. -/
def assign? (name : String) (n : Int) : IntEnv → Option IntEnv
  | [] => none
  | v :: outer =>
      if v.name = name then some ({ v with value := v.type.wrap n } :: outer)
      else (assign? name n outer).map (v :: ·)

end IntEnv

section Evaluation

-- Which conversions need no cast, as in `IntType.converts`.
variable (narrow : Bool)

/-- The type of an expression. -/
def IntExpr.type? (env : IntEnv) : IntExpr → Option IntType
  | .load name => (IntEnv.lookup? env name).map (·.type)
  | .int _ => some .int
  | .long _ => some .long
  | .boolean _ | .condValue _ => some .boolean
  | .arith op left right => do
      return op.resultType (← left.type? env) (← right.type? env)
  | .negate operand => do
      return (← operand.type? env).promoted
  | .cast target _ => some target
  | .conditional _ thenArm elseArm => do
      IntType.common? narrow (← thenArm.type? env) (← elseArm.type? env)

mutual

/-- The value of an expression. -/
def IntExpr.eval (env : IntEnv) : IntExpr → Option Int
  | .load name => (IntEnv.lookup? env name).map (·.value)
  | .int value => some value.toInt
  | .long value => some value.toInt
  | .boolean value => some value.toInt
  | .arith op left right => do
      let ty := op.resultType (← left.type? narrow env) (← right.type? narrow env)
      return op.apply ty (← left.eval env) (← right.eval env)
  | .negate operand => do
      let ty := (← operand.type? narrow env).promoted
      return ty.wrap (-(← operand.eval env))
  | .cast target operand => do
      return target.wrap (← operand.eval env)
  | .conditional cond thenArm elseArm => do
      let ty ← IntType.common? narrow (← thenArm.type? narrow env) (← elseArm.type? narrow env)
      if ← cond.eval env then return ty.wrap (← thenArm.eval env)
      else return ty.wrap (← elseArm.eval env)
  | .condValue cond => do
      return (← cond.eval env).toInt

/-- Whether a condition holds. -/
def IntCond.eval (env : IntEnv) : IntCond → Option Bool
  | .const value => some value
  | .truth value => do
      return (← value.eval env) != 0
  | .falsity value => do
      return (← value.eval env) == 0
  | .compare op left right _ => do
      return op.holds (Ord.compare (← left.eval env) (← right.eval env))
  | .conj parts => evalUntil env false parts
  | .disj parts => evalUntil env true parts

/-- Evaluate conditions up to the first one with this result. -/
def evalUntil (env : IntEnv) (sense : Bool) : List IntCond → Option Bool
  | [] => some (!sense)
  | part :: rest => do
      if (← part.eval env) = sense then return sense
      else evalUntil env sense rest

end

/-- How statements end. -/
inductive IntOutcome where
  | next (env : IntEnv)
  | returned (value : Int)
  /-- A loop made as many rounds as it may. -/
  | exhausted

/-- Leave a scope: variables declared in it are dropped. -/
def IntOutcome.leaving (outer : IntEnv) : IntOutcome → IntOutcome
  | .next env => .next (env.drop (env.length - outer.length))
  | outcome => outcome

/-- Repeat a body while a condition holds. -/
def rounds (cond : IntEnv → Option Bool) (body : IntEnv → Option IntOutcome) :
    Nat → IntEnv → Option IntOutcome
  | 0, _ => some .exhausted
  | bound + 1, env => do
      if ← cond env then
        match ← body env with
        | .next env => rounds cond body bound env
        | outcome => return outcome
      else return .next env

variable (result : IntType) (bound : Nat)

mutual

def IntStmt.exec (env : IntEnv) : IntStmt → Option IntOutcome
  | .declare name type init => do
      return .next (⟨name, type, type.wrap (← init.eval narrow env)⟩ :: env)
  | .store name value => do
      return .next (← IntEnv.assign? name (← value.eval narrow env) env)
  | .increment name step => do
      let v ← IntEnv.lookup? env name
      return .next (← IntEnv.assign? name (v.value + step.toInt) env)
  | .block body => do
      return (← execAll env body).leaving env
  | .ifThen cond body => do
      if ← cond.eval narrow env then return (← execAll env body).leaving env
      else return .next env
  | .ifElse cond body otherwise => do
      if ← cond.eval narrow env then return (← execAll env body).leaving env
      else return (← execAll env otherwise).leaving env
  | .whileLoop cond body =>
      rounds (fun env => cond.eval narrow env)
        (fun env => do return (← execAll env body).leaving env) bound env
  | .returnValue value => do
      return .returned (result.wrap (← value.eval narrow env))

def execAll (env : IntEnv) : List IntStmt → Option IntOutcome
  | [] => some (.next env)
  | stmt :: rest => do
      match ← stmt.exec env with
      | .next env => execAll env rest
      | outcome => return outcome

end

end Evaluation

namespace IntProgram

/-- The parameters as variables, the last one innermost. -/
def start (program : IntProgram) (args : List Int) : IntEnv :=
  (program.params.zipWith (fun param n => ⟨param.1, param.2, n⟩) args).reverse

/-- Run the program in loops of at most `bound` rounds. -/
def run (program : IntProgram) (narrow : Bool) (bound : Nat) (args : List Int) :
    Option IntOutcome :=
  execAll narrow program.result bound (program.start args) program.body

def Returns (program : IntProgram) (narrow : Bool) (args : List Int) (n : Int) : Prop :=
  ∃ bound, program.run narrow bound args = some (.returned n)

def Diverges (program : IntProgram) (narrow : Bool) (args : List Int) : Prop :=
  ∀ bound, program.run narrow bound args = some .exhausted

end IntProgram

end JvmAssembler
