/-!
# Java types and method signatures

The types a method body can mention: the eight primitive types, class and
interface types by binary name (`java/lang/String`), arrays, the class under
construction, the type of the `null` literal and `void`.

Every type has a width in stack or local slots, a display text, and a type
code.  Type codes number the variants of a typed instruction family, so that
the variant for a type is the family's first opcode plus the type's code.
-/

namespace JvmAssembler

/-- The primitive types. -/
inductive Primitive where
  | boolean
  | byte
  | short
  | char
  | int
  | long
  | float
  | double
  deriving DecidableEq

namespace Primitive

/-- All primitive types, in declaration order. -/
def all : List Primitive :=
  [.boolean, .byte, .short, .char, .int, .long, .float, .double]

theorem mem_all (p : Primitive) : p ∈ all := by
  cases p <;> decide

/-- The keyword of the type. -/
def name : Primitive → String
  | .boolean => "boolean"
  | .byte => "byte"
  | .short => "short"
  | .char => "char"
  | .int => "int"
  | .long => "long"
  | .float => "float"
  | .double => "double"

/-- The letter that stands for the type in a descriptor. -/
def descriptorChar : Primitive → Char
  | .boolean => 'Z'
  | .byte => 'B'
  | .short => 'S'
  | .char => 'C'
  | .int => 'I'
  | .long => 'J'
  | .float => 'F'
  | .double => 'D'

/-- The primitive type with descriptor letter `c`. -/
def ofDescriptorChar? (c : Char) : Option Primitive :=
  all.find? fun p => p.descriptorChar = c

/-- The 64-bit types, which take two slots. -/
def isWide : Primitive → Bool
  | .long | .double => true
  | _ => false

/-- Every type but `boolean`. -/
def isNumeric : Primitive → Bool
  | .boolean => false
  | _ => true

/-- Types that the machine represents as a plain `int`. -/
def isIntLike : Primitive → Bool
  | .long | .float | .double => false
  | _ => true

/-- Numeric types without a fractional part. -/
def isIntegral : Primitive → Bool
  | .boolean | .float | .double => false
  | _ => true

/-- The type the machine computes in: `int` for everything int-like. -/
def computational (p : Primitive) : Primitive :=
  if p.isIntLike then .int else p

/-- Position of the type's variant in an instruction family. -/
def typecode : Primitive → UInt8
  | .int => 0
  | .long => 1
  | .float => 2
  | .double => 3
  | .boolean | .byte => 5
  | .char => 6
  | .short => 7

/-- Binary name of the class that boxes the type. -/
def wrapper : Primitive → String
  | .boolean => "java/lang/Boolean"
  | .byte => "java/lang/Byte"
  | .short => "java/lang/Short"
  | .char => "java/lang/Character"
  | .int => "java/lang/Integer"
  | .long => "java/lang/Long"
  | .float => "java/lang/Float"
  | .double => "java/lang/Double"

/-- The wrapper's method that returns the boxed value. -/
def unboxMethod : Primitive → String
  | .boolean => "booleanValue"
  | .byte => "byteValue"
  | .short => "shortValue"
  | .char => "charValue"
  | .int => "intValue"
  | .long => "longValue"
  | .float => "floatValue"
  | .double => "doubleValue"

/-- The primitive type that the class with this binary name boxes. -/
def ofWrapper? (binaryName : String) : Option Primitive :=
  all.find? fun p => p.wrapper = binaryName

/-- Element type code of the `newarray` instruction. -/
def arrayCode : Primitive → Int32
  | .boolean => 4
  | .char => 5
  | .float => 6
  | .double => 7
  | .byte => 8
  | .short => 9
  | .int => 10
  | .long => 11

end Primitive

/-- `text` with every occurrence of the character `old` replaced by `new`. -/
def replaceChar (old new : Char) (text : String) : String :=
  String.ofList (text.toList.map fun c => if c = old then new else c)

/-- Binary form of a class name: packages are separated by slashes. -/
def binaryName (name : String) : String :=
  replaceChar '.' '/' name

/-- Source form of a class name: packages are separated by dots. -/
def sourceName (name : String) : String :=
  replaceChar '/' '.' name

/-- The part of a binary name before its last slash, empty without one. -/
def packageName (name : String) : String :=
  String.ofList ((name.toList.reverse.dropWhile (· ≠ '/')).drop 1).reverse

/-- The types of values, with `void` for their absence. -/
inductive JType where
  | primitive (p : Primitive)
  /-- A class or interface, by binary name. -/
  | cls (name : String)
  | array (elem : JType)
  /-- The class under construction. -/
  | self
  /-- The type of the `null` literal. -/
  | null
  | void
  deriving DecidableEq

namespace JType

abbrev boolean : JType := .primitive .boolean
abbrev byte : JType := .primitive .byte
abbrev short : JType := .primitive .short
abbrev char : JType := .primitive .char
abbrev int : JType := .primitive .int
abbrev long : JType := .primitive .long
abbrev float : JType := .primitive .float
abbrev double : JType := .primitive .double

/-- The root of the class hierarchy. -/
def object : JType := .cls "java/lang/Object"

/-- The type of string literals. -/
def string : JType := .cls "java/lang/String"

/-- The class type with this name, in source or binary form. -/
def named (name : String) : JType := .cls (binaryName name)

/-- The class that boxes `p`. -/
def wrapperOf (p : Primitive) : JType := .cls p.wrapper

/-- The primitive type, if `ty` is one. -/
def asPrimitive? : JType → Option Primitive
  | .primitive p => some p
  | _ => none

def isPrimitive : JType → Bool
  | .primitive _ => true
  | _ => false

/-- Classes, arrays, the class under construction and `null`. -/
def isReference : JType → Bool
  | .cls _ | .array _ | .self | .null => true
  | .primitive _ | .void => false

def isVoid : JType → Bool
  | .void => true
  | _ => false

def isWide : JType → Bool
  | .primitive p => p.isWide
  | _ => false

def isNumeric : JType → Bool
  | .primitive p => p.isNumeric
  | _ => false

def isBoolean : JType → Bool
  | .primitive .boolean => true
  | _ => false

/-- Slots that a value of the type takes on the stack or among the locals. -/
def width : JType → Nat
  | .void => 0
  | ty => if ty.isWide then 2 else 1

/-- Position of the type's variant in an instruction family. -/
def typecode : JType → UInt8
  | .primitive p => p.typecode
  | .void => 8
  | _ => 4

/-- The primitive type that a wrapper class boxes. -/
def unboxed? : JType → Option Primitive
  | .cls name => Primitive.ofWrapper? name
  | _ => none

/-- The element type of an array type. -/
def element? : JType → Option JType
  | .array elem => some elem
  | _ => none

/-- `boolean` or its wrapper. -/
def isBooleanLike (ty : JType) : Bool :=
  ty.isBoolean || ty.unboxed? = some .boolean

/-- The type as it is written in listings and messages. -/
def text : JType → String
  | .primitive p => p.name
  | .cls name => sourceName name
  | .array elem => elem.text ++ "[]"
  | .self => "<this>"
  | .null => "null"
  | .void => "void"

/-- The type whose text is the given one reversed: `][tni` is an array of
`int`. -/
def ofReversedText : List Char → JType
  | ']' :: '[' :: rest => .array (ofReversedText rest)
  | reversed =>
      let name := String.ofList reversed.reverse
      match Primitive.all.find? fun p => p.name = name with
      | some p => .primitive p
      | none =>
          if name = "void" then .void
          else if name = "null" then .null
          else if name = "<this>" then .self
          else .named name

/-- The type with this text; a word that is no keyword names a class. -/
def ofText (text : String) : JType :=
  ofReversedText text.toList.reverse

/-- Texts of several types with a separator between them. -/
def textList (separator : String) (types : List JType) : String :=
  separator.intercalate (types.map text)

/-- Total width of several values. -/
def totalWidth : List JType → Nat
  | [] => 0
  | ty :: rest => ty.width + totalWidth rest

@[simp]
theorem totalWidth_nil : totalWidth [] = 0 :=
  rfl

@[simp]
theorem totalWidth_cons (ty : JType) (types : List JType) :
    totalWidth (ty :: types) = ty.width + totalWidth types :=
  rfl

theorem totalWidth_append (first second : List JType) :
    totalWidth (first ++ second) = totalWidth first + totalWidth second := by
  induction first with
  | nil => simp
  | cons ty rest ih => simp [ih, Nat.add_assoc]

/-- Slots taken by several values, counted in 16 bits. -/
def slotCount (types : List JType) : UInt16 :=
  (totalWidth types).toUInt16

theorem slotCount_cons (ty : JType) (types : List JType) :
    slotCount (ty :: types) = ty.width.toUInt16 + slotCount types :=
  UInt16.ofNat_add _ _

theorem slotCount_append (first second : List JType) :
    slotCount (first ++ second) = slotCount first + slotCount second := by
  rw [slotCount, totalWidth_append]
  exact UInt16.ofNat_add _ _

/-- The count is right if it does not overflow. -/
theorem toNat_slotCount {types : List JType} (small : totalWidth types ≤ 65535) :
    (slotCount types).toNat = totalWidth types :=
  UInt16.toNat_ofNat_of_lt' (Nat.lt_succ_of_le small)

end JType

/-- Parameter types and result type of a method.  A field is described by its
type as the result and no parameters. -/
structure Signature where
  params : List JType
  result : JType
  deriving DecidableEq

namespace Signature

/-- Slots taken by the arguments, without a receiver. -/
def argSlots (sig : Signature) : UInt16 :=
  JType.slotCount sig.params

/-- Parameters and result as they are written in log lines. -/
def text (sig : Signature) : String :=
  "(" ++ JType.textList ", " sig.params ++ ")" ++ sig.result.text

end Signature

end JvmAssembler
