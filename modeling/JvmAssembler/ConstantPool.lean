import Std.Data.TreeMap
import JvmAssembler.Type.Descriptor

/-!
# Constant pool

The constants that encoded code refers to by index.  Indices start at one;
`long` and `double` constants take two.  Equal constants are shared: a constant
is recognised by its serialized form.
-/

namespace JvmAssembler

/-- The two bytes of a 16-bit number, the high one first. -/
def bytes16 (n : UInt16) : List UInt8 :=
  [(n >>> 8).toUInt8, n.toUInt8]

/-- The four bytes of a 32-bit number, the high one first. -/
def bytes32 (n : UInt32) : List UInt8 :=
  bytes16 (n >>> 16).toUInt16 ++ bytes16 n.toUInt16

/-- The eight bytes of a 64-bit number, the high one first. -/
def bytes64 (n : UInt64) : List UInt8 :=
  bytes32 (n >>> 32).toUInt32 ++ bytes32 n.toUInt32

namespace ModifiedUtf8

/-- The 16-bit units of a character: one, or a surrogate pair. -/
def units (c : Char) : List Nat :=
  if c.toNat < 0x10000 then [c.toNat]
  else
    let offset := c.toNat - 0x10000
    [0xd800 + offset / 0x400, 0xdc00 + offset % 0x400]

/-- The bytes of a unit: zero takes two bytes, so that no byte is zero. -/
def encodeUnit (unit : Nat) : List UInt8 :=
  if 0x01 ≤ unit && unit ≤ 0x7f then [unit.toUInt8]
  else if unit ≤ 0x7ff then [(0xc0 + unit / 0x40).toUInt8, (0x80 + unit % 0x40).toUInt8]
  else
    [(0xe0 + unit / 0x1000).toUInt8, (0x80 + unit / 0x40 % 0x40).toUInt8,
      (0x80 + unit % 0x40).toUInt8]

/-- The bytes of a text in the class-file encoding. -/
def encode (text : String) : List UInt8 :=
  text.toList.flatMap fun c => (units c).flatMap encodeUnit

end ModifiedUtf8

/-- One constant.  References to other constants are indices. -/
inductive Constant where
  | utf8 (text : String)
  | integer (value : Int32)
  | float (value : Binary32)
  | long (value : Int64)
  | double (value : Binary64)
  | cls (name : UInt16)
  | string (text : UInt16)
  | fieldRef (owner nameAndType : UInt16)
  | methodRef (owner nameAndType : UInt16)
  | interfaceMethodRef (owner nameAndType : UInt16)
  | nameAndType (name descriptor : UInt16)
  deriving DecidableEq

namespace Constant

def tag : Constant → UInt8
  | .utf8 _ => 1
  | .integer _ => 3
  | .float _ => 4
  | .long _ => 5
  | .double _ => 6
  | .cls _ => 7
  | .string _ => 8
  | .fieldRef .. => 9
  | .methodRef .. => 10
  | .interfaceMethodRef .. => 11
  | .nameAndType .. => 12

/-- Number of indices the constant takes. -/
def width : Constant → Nat
  | .long _ | .double _ => 2
  | _ => 1

/-- The bytes after the tag.  The length of a text is written modulo `2 ^ 16`. -/
def payload : Constant → List UInt8
  | .utf8 text =>
      let encoded := ModifiedUtf8.encode text
      bytes16 encoded.length.toUInt16 ++ encoded
  | .integer value => bytes32 value.toUInt32
  | .float value => bytes32 value.bits
  | .long value => bytes64 value.toUInt64
  | .double value => bytes64 value.bits
  | .cls index | .string index => bytes16 index
  | .fieldRef a b | .methodRef a b | .interfaceMethodRef a b | .nameAndType a b =>
      bytes16 a ++ bytes16 b

/-- The serialized constant. -/
def toBytes (constant : Constant) : List UInt8 :=
  constant.tag :: constant.payload

end Constant

/-- Interned constants. -/
structure ConstantPool where
  /-- Constants in the order in which they were added. -/
  constants : Array Constant := #[]
  /-- Index of each serialized constant. -/
  index : Std.TreeMap (List UInt8) UInt16 := ∅
  /-- The next free index. -/
  next : Nat

/-- An operation on a pool that may fail; constants added before a failure
stay. -/
abbrev PoolOp := EStateM Error ConstantPool

namespace ConstantPool

/-- The pool without constants. -/
def new : ConstantPool := { next := 1 }

/-- The pool without constants whose first index was not claimed yet. -/
def blank : ConstantPool := { next := 0 }

/-- One more than the highest index in use. -/
def count (pool : ConstantPool) : Nat :=
  max pool.next 1

/-- The index of a constant, which is added if it is not there. -/
def add (constant : Constant) : PoolOp UInt16 := fun pool =>
  let key := constant.toBytes
  match pool.index[key]? with
  | some index => .ok index pool
  | none =>
      let index := pool.count
      if 65535 < index + constant.width then .error (.invalidInput .poolOverflow) pool
      else
        .ok index.toUInt16
          { constants := pool.constants.push constant
            index := pool.index.insert key index.toUInt16
            next := index + constant.width }

def addUtf8 (text : String) : PoolOp UInt16 :=
  add (.utf8 text)

def addClass (internalName : String) : PoolOp UInt16 := do
  add (.cls (← addUtf8 internalName))

/-- Perform a computation that does not concern the pool. -/
def lift {α : Type} (result : Except Error α) : PoolOp α := fun pool =>
  match result with
  | .ok value => .ok value pool
  | .error error => .error error pool

/-- The class constant of a type. -/
def addType (this : ClassHandle) (ty : JType) : PoolOp UInt16 := do
  addClass (← lift (ty.internalName this))

def addString (text : String) : PoolOp UInt16 := do
  add (.string (← addUtf8 text))

def addNameAndType (name descriptor : String) : PoolOp UInt16 := do
  let nameIndex ← addUtf8 name
  let descriptorIndex ← addUtf8 descriptor
  add (.nameAndType nameIndex descriptorIndex)

/-- The constant of a field or method reference. -/
def addMemberRef (this : ClassHandle) (ref : MemberRef) : PoolOp UInt16 := do
  let owner ← addType this ref.owner
  let descriptor ← lift <|
    if ref.isField then ref.signature.result.descriptor this
    else ref.signature.descriptor this
  let nameAndType ← addNameAndType ref.name descriptor
  add <|
    if ref.isField then .fieldRef owner nameAndType
    else if ref.isInterface then .interfaceMethodRef owner nameAndType
    else .methodRef owner nameAndType

def addLiteral : Literal → PoolOp UInt16
  | .int value => add (.integer value)
  | .long value => add (.long value)
  | .float value => add (.float value)
  | .double value => add (.double value)
  | .string text => addString text

/-- The serialized pool. -/
def toBytes (pool : ConstantPool) : List UInt8 :=
  bytes16 pool.count.toUInt16 ++ pool.constants.toList.flatMap Constant.toBytes

end ConstantPool

end JvmAssembler
