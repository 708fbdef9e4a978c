import JvmAssembler.Instr
import JvmAssembler.Operator

/-!
# Method bodies

A body is a fragment: a sequence of operations in the order in which they act
on the operand stack.  A value fragment starts from a source (a constant, a
local, a call) and goes on with operations on the value on top; a statement
ends by consuming it.  Conditions are trees of tests over value fragments.

Bodies are plain data; nothing is checked until they are generated.
-/

namespace JvmAssembler

mutual

/-- One operation of a fragment. -/
inductive Op where
  | constant (value : Literal)
  | boolean (value : Bool)
  | null
  | this
  | load (source : LocalRef)
  | store (target : LocalRef) (value : List Op)
  | declare (name : String) (type : JType) (init : List Op)
  | declareUninit (name : String) (type : JType)
  | increment (target : LocalRef) (step : Int32)
  | getField (name : String)
  | putField (name : String) (value : List Op)
  | getStatic (owner : JType) (name : String)
  | putStatic (owner : JType) (name : String) (value : List Op)
  | invoke (name : String) (args : List (List Op))
  | invokeStatic (owner : JType) (name : String) (args : List (List Op))
  | construct (type : JType) (args : List (List Op))
  | superInit (args : List (List Op))
  | newArray (elem : JType) (length : List Op)
  | arrayLoad (index : List Op)
  | arrayStore (index value : List Op)
  | arrayLength
  | arith (op : ArithOp) (right : List Op)
  | negate
  | cast (target : JType)
  | convert (target : JType)
  | instanceOf (type : JType)
  | pop
  | returnValue
  | returnVoid
  | throw
  | ifThen (cond : Cond) (body : List Op)
  | ifElse (cond : Cond) (body otherwise : List Op)
  | whileLoop (cond : Cond) (body : List Op)
  | conditional (cond : Cond) (thenArm elseArm : List Op)
  | condValue (cond : Cond)
  | block (body : List Op)
  /-- A mistake made while building the fragment. -/
  | malformed (reason : String)

/-- A condition. -/
inductive Cond where
  | const (value : Bool)
  /-- The fragment yields `true`. -/
  | truth (value : List Op)
  /-- The fragment yields `false`. -/
  | falsity (value : List Op)
  | isNull (value : List Op)
  | nonNull (value : List Op)
  /-- A comparison; `nan` is its result when an operand is not a number. -/
  | compare (op : RelOp) (left right : List Op) (nan : Bool)
  /-- All parts hold. -/
  | conj (parts : List Cond)
  /-- Some part holds. -/
  | disj (parts : List Cond)

end

/-- A sequence of operations. -/
abbrev Fragment := List Op

/-- Short name of an operation for messages. -/
def Op.name : Op → String
  | .constant _ => "constant"
  | .boolean _ => "boolean constant"
  | .null => "null"
  | .this => "this"
  | .load _ => "load"
  | .store .. => "store"
  | .declare .. | .declareUninit .. => "declaration"
  | .increment .. => "increment"
  | .getField _ => "field read"
  | .putField .. => "field write"
  | .getStatic .. => "static field read"
  | .putStatic .. => "static field write"
  | .invoke .. => "invocation"
  | .invokeStatic .. => "static invocation"
  | .construct .. => "object creation"
  | .superInit _ => "super constructor call"
  | .newArray .. => "array creation"
  | .arrayLoad _ => "array load"
  | .arrayStore .. => "array store"
  | .arrayLength => "array length"
  | .arith .. => "arithmetic"
  | .negate => "negation"
  | .cast _ => "cast"
  | .convert _ => "conversion"
  | .instanceOf _ => "instanceof"
  | .pop => "pop"
  | .returnValue | .returnVoid => "return"
  | .throw => "throw"
  | .ifThen .. | .ifElse .. => "if"
  | .whileLoop .. => "while"
  | .conditional .. => "conditional"
  | .condValue _ => "condition value"
  | .block _ => "block"
  | .malformed _ => "malformed operation"

/-! ## Building fragments -/

namespace Fragment

/-- The value of a local variable. -/
def loadNamed (name : String) : Fragment := [.load (.named name)]

def int (value : Int32) : Fragment := [.constant (.int value)]

def string (value : String) : Fragment := [.constant (.string value)]

/-- Put a conditional body's alternative after it: the last operation must be
an `ifThen`. -/
def orElse (fragment otherwise : Fragment) : Fragment :=
  match fragment.getLast? with
  | some (.ifThen cond body) => fragment.dropLast ++ [.ifElse cond body otherwise]
  | _ =>
      fragment ++ [.malformed "or_else must directly follow an if_then without an else"]

end Fragment

/-! ## Building conditions -/

namespace Cond

/-- A comparison that treats an operand that is not a number as unequal to
everything and in no order. -/
def relation (op : RelOp) (left right : Fragment) : Cond :=
  .compare op left right (op = .ne)

/-- The parts of a conjunction; a single part otherwise. -/
def conjuncts : Cond → List Cond
  | .conj parts => parts
  | c => [c]

/-- The parts of a disjunction; a single part otherwise. -/
def disjuncts : Cond → List Cond
  | .disj parts => parts
  | c => [c]

/-- Conjunction; conjunctions on either side become part of it. -/
def and (left right : Cond) : Cond :=
  .conj (left.conjuncts ++ right.conjuncts)

/-- Disjunction; disjunctions on either side become part of it. -/
def or (left right : Cond) : Cond :=
  .disj (left.disjuncts ++ right.disjuncts)

/-- Conjunction of all conditions; true without any. -/
def all : List Cond → Cond
  | [] => .const true
  | first :: rest => rest.foldl and first

/-- Disjunction of all conditions; false without any. -/
def any : List Cond → Cond
  | [] => .const false
  | first :: rest => rest.foldl or first

mutual

/-- The condition that holds exactly when this one does not. -/
def negate : Cond → Cond
  | .const value => .const (!value)
  | .truth value => .falsity value
  | .falsity value => .truth value
  | .isNull value => .nonNull value
  | .nonNull value => .isNull value
  | .compare op left right nan => .compare op.negate left right (!nan)
  | .conj parts => .disj (negateAll parts)
  | .disj parts => .conj (negateAll parts)

def negateAll : List Cond → List Cond
  | [] => []
  | c :: rest => negate c :: negateAll rest

end

end Cond

/-! ## Equality

Bodies are equal if they have the same structure and their floating-point
literals are equal as numbers, so that a body with a literal that is not a
number differs from itself. -/

mutual

def Op.numericEq : Op → Op → Bool
  | .constant a, .constant b => a.numericEq b
  | .boolean a, .boolean b => a == b
  | .null, .null | .this, .this | .arrayLength, .arrayLength | .negate, .negate | .pop, .pop
  | .returnValue, .returnValue | .returnVoid, .returnVoid | .throw, .throw => true
  | .load a, .load b => a == b
  | .store a v, .store b w => a == b && opsNumericEq v w
  | .declare a t v, .declare b u w => a == b && t == u && opsNumericEq v w
  | .declareUninit a t, .declareUninit b u => a == b && t == u
  | .increment a m, .increment b n => a == b && m == n
  | .getField a, .getField b => a == b
  | .putField a v, .putField b w => a == b && opsNumericEq v w
  | .getStatic t a, .getStatic u b => t == u && a == b
  | .putStatic t a v, .putStatic u b w => t == u && a == b && opsNumericEq v w
  | .invoke a vs, .invoke b ws => a == b && argsNumericEq vs ws
  | .invokeStatic t a vs, .invokeStatic u b ws => t == u && a == b && argsNumericEq vs ws
  | .construct t vs, .construct u ws => t == u && argsNumericEq vs ws
  | .superInit vs, .superInit ws => argsNumericEq vs ws
  | .newArray t v, .newArray u w => t == u && opsNumericEq v w
  | .arrayLoad v, .arrayLoad w => opsNumericEq v w
  | .arrayStore i v, .arrayStore j w => opsNumericEq i j && opsNumericEq v w
  | .arith a v, .arith b w => a == b && opsNumericEq v w
  | .cast t, .cast u => t == u
  | .convert t, .convert u => t == u
  | .instanceOf t, .instanceOf u => t == u
  | .ifThen c v, .ifThen d w => c.numericEq d && opsNumericEq v w
  | .ifElse c v x, .ifElse d w y => c.numericEq d && opsNumericEq v w && opsNumericEq x y
  | .whileLoop c v, .whileLoop d w => c.numericEq d && opsNumericEq v w
  | .conditional c v x, .conditional d w y =>
      c.numericEq d && opsNumericEq v w && opsNumericEq x y
  | .condValue c, .condValue d => c.numericEq d
  | .block v, .block w => opsNumericEq v w
  | .malformed a, .malformed b => a == b
  | _, _ => false

def opsNumericEq : List Op → List Op → Bool
  | [], [] => true
  | a :: rest, b :: rest' => a.numericEq b && opsNumericEq rest rest'
  | _, _ => false

def argsNumericEq : List (List Op) → List (List Op) → Bool
  | [], [] => true
  | v :: rest, w :: rest' => opsNumericEq v w && argsNumericEq rest rest'
  | _, _ => false

def Cond.numericEq : Cond → Cond → Bool
  | .const a, .const b => a == b
  | .truth v, .truth w => opsNumericEq v w
  | .falsity v, .falsity w => opsNumericEq v w
  | .isNull v, .isNull w => opsNumericEq v w
  | .nonNull v, .nonNull w => opsNumericEq v w
  | .compare a v x m, .compare b w y n =>
      a == b && opsNumericEq v w && opsNumericEq x y && m == n
  | .conj ps, .conj qs => condsNumericEq ps qs
  | .disj ps, .disj qs => condsNumericEq ps qs
  | _, _ => false

def condsNumericEq : List Cond → List Cond → Bool
  | [], [] => true
  | c :: rest, d :: rest' => c.numericEq d && condsNumericEq rest rest'
  | _, _ => false

end

end JvmAssembler
