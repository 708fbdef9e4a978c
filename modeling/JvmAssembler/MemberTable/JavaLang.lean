import JvmAssembler.MemberTable.Basic

/-!
# The part of `java.lang` the assembler relies on

Boxing and unboxing, strings and their builder, a few exceptions and the
arithmetic of `Math`.
-/

namespace JvmAssembler.MemberTable

/-- Interfaces and classes other than the wrappers. -/
def declareLangTypes (table : MemberTable) : MemberTable :=
  let object := "java/lang/Object"
  let serializable := "java/io/Serializable"
  let charSequence := "java/lang/CharSequence"
  let comparable := "java/lang/Comparable"
  let throwable := "java/lang/Throwable"
  let exception := "java/lang/Exception"
  let runtimeException := "java/lang/RuntimeException"
  table
    |>.declareInterface serializable []
    |>.declareInterface comparable []
    |>.declareInterface charSequence []
    |>.declareInterface "java/lang/Cloneable" []
    |>.declareClass "java/lang/Number" object [serializable]
    |>.declareClass "java/lang/String" object [serializable, comparable, charSequence]
    |>.declareClass "java/lang/StringBuilder" object [serializable, charSequence]
    |>.declareClass "java/lang/Math" object []
    |>.declareClass throwable object [serializable]
    |>.declareClass exception throwable []
    |>.declareClass runtimeException exception []
    |>.declareClass "java/lang/IllegalArgumentException" runtimeException []

/-- Members of the root class and of strings. -/
def declareLangStrings (table : MemberTable) : MemberTable :=
  let object := JType.object
  let string := JType.string
  let builder := JType.named "java.lang.StringBuilder"
  let table := table
    |>.declareConstructor object [] .publicFlag
    |>.declareMethod object "equals" [object] .boolean .publicFlag
    |>.declareMethod object "hashCode" [] .int .publicFlag
    |>.declareMethod object "toString" [] string .publicFlag
    |>.declareMethod string "length" [] .int .publicFlag
    |>.declareMethod string "isEmpty" [] .boolean .publicFlag
    |>.declareMethod string "charAt" [.int] .char .publicFlag
    |>.declareMethod string "concat" [string] string .publicFlag
    |>.declareMethod string "equals" [object] .boolean .publicFlag
    |>.declareMethod string "valueOf" [.int] string .publicStatic
    |>.declareMethod string "valueOf" [object] string .publicStatic
    |>.declareConstructor builder [] .publicFlag
    |>.declareConstructor builder [string] .publicFlag
    |>.declareMethod builder "length" [] .int .publicFlag
    |>.declareMethod builder "toString" [] string .publicFlag
  [string, object, .int, .long, .char, .boolean, .double].foldl
    (fun table arg => table.declareMethod builder "append" [arg] builder .publicFlag) table

/-- Static arithmetic and the exception that takes a message. -/
def declareLangMath (table : MemberTable) : MemberTable :=
  let math := JType.named "java.lang.Math"
  let exception := JType.named "java.lang.IllegalArgumentException"
  let table := [JType.int, JType.long, JType.double].foldl
    (fun table ty => table
      |>.declareMethod math "abs" [ty] ty .publicStatic
      |>.declareMethod math "max" [ty, ty] ty .publicStatic
      |>.declareMethod math "min" [ty, ty] ty .publicStatic)
    table
  table
    |>.declareConstructor exception [] .publicFlag
    |>.declareConstructor exception [.string] .publicFlag

/-- The wrapper class of a primitive type, with its boxing and unboxing
methods. -/
def declareWrapper (table : MemberTable) (p : Primitive) : MemberTable :=
  let wrapper := JType.wrapperOf p
  let superclass :=
    if p.isNumeric && p != .char then "java/lang/Number" else "java/lang/Object"
  table
    |>.declareClass p.wrapper superclass ["java/io/Serializable", "java/lang/Comparable"]
    |>.declareMethod wrapper "valueOf" [.primitive p] wrapper .publicStatic
    |>.declareMethod wrapper p.unboxMethod [] (.primitive p) .publicFlag

/-- The table of the standard classes. -/
def javaLang : MemberTable :=
  let integer := JType.wrapperOf .int
  let constant := Access.union .publicStatic .finalFlag
  let table := MemberTable.new |>.declareLangTypes |>.declareLangStrings |>.declareLangMath
  Primitive.all.foldl declareWrapper table
    |>.declareMethod integer "parseInt" [.string] .int .publicStatic
    |>.declareField integer "MAX_VALUE" .int constant
    |>.declareField integer "MIN_VALUE" .int constant

end JvmAssembler.MemberTable
