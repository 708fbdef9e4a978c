import JvmAssembler.Type.Basic

/-!
# Fields, methods and constructors

A member is what a class declares; a member reference is what an instruction
names.
-/

namespace JvmAssembler

/-- Access flags of a class file. -/
structure Access where
  flags : UInt16
  deriving DecidableEq

namespace Access

abbrev publicFlag : Access := ⟨0x0001⟩
abbrev privateFlag : Access := ⟨0x0002⟩
abbrev protectedFlag : Access := ⟨0x0004⟩
abbrev staticFlag : Access := ⟨0x0008⟩
abbrev finalFlag : Access := ⟨0x0010⟩

/-- The flags of both. -/
def union (a b : Access) : Access :=
  ⟨a.flags ||| b.flags⟩

/-- Whether every flag of `b` is set in `a`. -/
def contains (a b : Access) : Bool :=
  a.flags &&& b.flags == b.flags

def isPublic (a : Access) : Bool := a.contains publicFlag
def isPrivate (a : Access) : Bool := a.contains privateFlag
def isProtected (a : Access) : Bool := a.contains protectedFlag
def isStatic (a : Access) : Bool := a.contains staticFlag

/-- Flags of a public static member. -/
def publicStatic : Access := union publicFlag staticFlag

end Access

/-- What kind of thing a member is. -/
inductive MemberKind where
  | field
  | method
  | constructor
  deriving DecidableEq

/-- The name under which constructors are declared. -/
def constructorName : String := "<init>"

/-- A declared field, method or constructor. -/
structure Member where
  owner : JType
  name : String
  kind : MemberKind
  /-- A field has no parameters and its type as the result. -/
  signature : Signature
  throws : List JType
  access : Access
  /-- Whether the owner was an interface when the member was declared. -/
  ownerIsInterface : Bool
  deriving DecidableEq

namespace Member

def isStatic (m : Member) : Bool :=
  m.access.isStatic

def params (m : Member) : List JType :=
  m.signature.params

/-- Type of a field, result type of a method. -/
def valueType (m : Member) : JType :=
  m.signature.result

/-- The member as it is written in messages. -/
def text (m : Member) : String :=
  match m.kind with
  | .field => m.owner.text ++ "." ++ m.name
  | _ => m.owner.text ++ "." ++ m.name ++ "(" ++ JType.textList ", " m.params ++ ")"

end Member

/-- The field or method that an instruction names. -/
structure MemberRef where
  owner : JType
  name : String
  signature : Signature
  isField : Bool := false
  isInterface : Bool := false
  deriving DecidableEq

namespace MemberRef

/-- Reference to a method of a class. -/
def method (owner : JType) (name : String) (params : List JType) (result : JType) : MemberRef :=
  { owner, name, signature := ⟨params, result⟩ }

/-- The reference as it is written in listings. -/
def text (ref : MemberRef) : String :=
  let path := ref.owner.text ++ "." ++ ref.name
  if ref.isField then path ++ ":" ++ ref.signature.result.text
  else path ++ "(" ++ JType.textList "," ref.signature.params ++ ")" ++ ref.signature.result.text

end MemberRef

/-- The reference that names a declared member. -/
def Member.ref (m : Member) : MemberRef where
  owner := m.owner
  name := m.name
  signature := m.signature
  isField := m.kind = .field
  isInterface := m.ownerIsInterface

end JvmAssembler
