import JvmAssembler.MemberTable.JavaLang
import JvmAssembler.Method

/-!
# Sample methods

Ready-made methods that the command line can list and assemble.
-/

namespace JvmAssembler

/-- A named method with a one-line description. -/
structure Sample where
  name : String
  about : String
  spec : MethodSpec

namespace Sample

open Fragment

/-- `if (value < 0) return value * -1; return value;` -/
def absolute : MethodSpec where
  name := "abs"
  access := .publicStatic
  params := [("value", .int)]
  result := .int
  body :=
    [.ifThen (.relation .lt (loadNamed "value") (int 0))
      (loadNamed "value" ++ [.arith .mul (int (-1)), .returnValue])] ++
    loadNamed "value" ++ [.returnValue]

/-- `return a < b ? a : b;` -/
def minimum : MethodSpec where
  name := "min"
  access := .publicStatic
  params := [("a", .int), ("b", .int)]
  result := .int
  body :=
    [.conditional (.relation .lt (loadNamed "a") (loadNamed "b")) (loadNamed "a") (loadNamed "b"),
      .returnValue]

/-- Adds up an array of `int`. -/
def arraySum : MethodSpec where
  name := "sum"
  access := .publicStatic
  params := [("values", .array .int)]
  result := .int
  body :=
    [.declare "total" .int (int 0),
      .declare "i" .int (int 0),
      .whileLoop (.relation .lt (loadNamed "i") (loadNamed "values" ++ [.arrayLength]))
        [.store (.named "total")
          (loadNamed "total" ++
            [.arith .add (loadNamed "values" ++ [.arrayLoad (loadNamed "i")])]),
          .increment (.named "i") 1]] ++
    loadNamed "total" ++ [.returnValue]

/-- Whether the parameter `name` equals a text. -/
def nameEquals (text : String) : Cond :=
  .truth (loadNamed "name" ++ [.invoke "equals" [string text]])

/-- Set a static flag and return a text. -/
def flagAndReturn (flag text : String) : Fragment :=
  [.putStatic .self flag [.boolean true]] ++ string text ++ [.returnValue]

/-- Tells the branches of an `if`/`else if`/`else` apart. -/
def branchNames : MethodSpec where
  name := "branchNames"
  access := .publicStatic
  params := [("name", .string)]
  result := .string
  body :=
    [.ifElse (nameEquals "if") (flagAndReturn "hit" "if")
      [.ifElse (nameEquals "elseIf") (flagAndReturn "hit" "elseIf")
        (flagAndReturn "miss" "else")]]

/-- All samples. -/
def all : List Sample :=
  [{ name := "abs", about := "if (value < 0) return value * -1; return value;",
     spec := absolute },
    { name := "min", about := "return a < b ? a : b;", spec := minimum },
    { name := "sum", about := "while-loop sum over an int[]", spec := arraySum },
    { name := "branch_names",
      about := "if/else-if/else on String.equals, setting one of two static flags",
      spec := branchNames }]

/-- The sample with this name. -/
def find (name : String) : Except Error Sample :=
  match all.find? fun sample => sample.name = name with
  | some sample => .ok sample
  | none => .error (.invalidInput (.noSample name))

/-- The members that the samples mention, for a class with this name. -/
def table (className : String) : MemberTable :=
  MemberTable.javaLang
    |>.declareSelf (packageName (binaryName className)) "java/lang/Object" []
    |>.declareField .self "hit" .boolean .publicStatic
    |>.declareField .self "miss" .boolean .publicStatic

/-- The class in which a sample is assembled. -/
def classContext (className : String) (config : Config) : ClassContext where
  this := .named className "java/lang/Object"
  table := table className
  config := config

/-- Assemble a sample in a class with this name. -/
def assemble (sample : Sample) (className : String) (config : Config) :
    Except Error AssembledMethod :=
  sample.spec.assemble (classContext className config)

end Sample

end JvmAssembler
