import JvmAssembler.Error

/-!
# The class under construction

A body may mention the class it belongs to before that class has a name.  The
handle holds the name once it is given; it is given at most once.
-/

namespace JvmAssembler

/-- The class under construction: its binary name, if given, and the binary
name of its superclass. -/
structure ClassHandle where
  name? : Option String
  superName : String
  deriving DecidableEq

namespace ClassHandle

/-- A class without a name yet. -/
def unnamed (superclass : String) : ClassHandle :=
  ⟨none, JvmAssembler.binaryName superclass⟩

/-- A class named from the start. -/
def named (name superclass : String) : ClassHandle :=
  ⟨some (JvmAssembler.binaryName name), JvmAssembler.binaryName superclass⟩

/-- Give the class its name; a second name is refused. -/
def setName (this : ClassHandle) (name : String) : Except Error ClassHandle :=
  match this.name? with
  | none => .ok { this with name? := some (JvmAssembler.binaryName name) }
  | some known => .error (.invalidInput (.alreadyNamed known))

/-- The binary name, which must have been given. -/
def binaryName (this : ClassHandle) : Except Error String :=
  match this.name? with
  | some name => .ok name
  | none => .error .unresolvedSelf

def isNamed (this : ClassHandle) : Bool :=
  this.name?.isSome

def superclass (this : ClassHandle) : JType :=
  .cls this.superName

/-- The class as it is written in messages. -/
def text (this : ClassHandle) : String :=
  match this.name? with
  | some name => sourceName name
  | none => JType.self.text

end ClassHandle

end JvmAssembler
