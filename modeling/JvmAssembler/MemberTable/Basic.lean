import JvmAssembler.Member

/-!
# Declared classes and members

A member table holds what is known about classes: their superclass and
interfaces, and their fields, methods and constructors in the order of
declaration.  A later declaration of a class replaces an earlier one.

The hierarchy may be cyclic and may mention classes that were never declared.
`lineage` lists a type and its supertypes, nearest first, by a breadth-first
walk; the walk ends because each step either shortens the queue or moves the
edges of one more declared class from the table to the queue.
-/

namespace JvmAssembler

/-- Supertypes of a declared class or interface. -/
structure ClassInfo where
  superclass : Option JType
  interfaces : List JType
  isInterface : Bool
  deriving DecidableEq

/-- Direct supertypes, the superclass first. -/
def ClassInfo.parents (info : ClassInfo) : List JType :=
  info.superclass.toList ++ info.interfaces

/-- Declared classes, latest first, and members, earliest first. -/
structure MemberTable where
  classes : List (JType × ClassInfo) := []
  members : List Member := []
  /-- Package of the class under construction. -/
  selfPackage : String := ""
  deriving DecidableEq

namespace MemberTable

/-! ## Declarations -/

/-- The table that knows nothing. -/
def empty : MemberTable := {}

/-- The table that knows the root class, without members. -/
def new : MemberTable :=
  { classes := [(.object, ⟨none, [], false⟩)] }

def declareType (table : MemberTable) (ty : JType) (info : ClassInfo) : MemberTable :=
  { table with classes := (ty, info) :: table.classes }

def declareClass (table : MemberTable) (name superclass : String) (interfaces : List String) :
    MemberTable :=
  table.declareType (.named name) ⟨some (.named superclass), interfaces.map .named, false⟩

def declareInterface (table : MemberTable) (name : String) (extended : List String) :
    MemberTable :=
  table.declareType (.named name) ⟨some .object, extended.map .named, true⟩

/-- Declare the class under construction and the package it belongs to. -/
def declareSelf (table : MemberTable) (package superclass : String) (interfaces : List String) :
    MemberTable :=
  { table.declareType .self ⟨some (.named superclass), interfaces.map .named, false⟩ with
    selfPackage := binaryName package }

/-- What is declared about a type. -/
def info? (table : MemberTable) (ty : JType) : Option ClassInfo :=
  table.classes.lookup ty

def isInterface (table : MemberTable) (ty : JType) : Bool :=
  match table.info? ty with
  | some info => info.isInterface
  | none => false

def insert (table : MemberTable) (member : Member) : MemberTable :=
  { table with members := table.members ++ [member] }

def declareField (table : MemberTable) (owner : JType) (name : String) (type : JType)
    (access : Access) : MemberTable :=
  table.insert
    { owner, name, kind := .field, signature := ⟨[], type⟩, throws := [], access,
      ownerIsInterface := table.isInterface owner }

def declareMethod (table : MemberTable) (owner : JType) (name : String) (params : List JType)
    (result : JType) (access : Access) (throws : List JType := []) : MemberTable :=
  table.insert
    { owner, name, kind := .method, signature := ⟨params, result⟩, throws, access,
      ownerIsInterface := table.isInterface owner }

def declareConstructor (table : MemberTable) (owner : JType) (params : List JType)
    (access : Access) : MemberTable :=
  table.insert
    { owner, name := constructorName, kind := .constructor, signature := ⟨params, .void⟩,
      throws := [], access, ownerIsInterface := false }

/-- The members with this owner and name, in the order of declaration. -/
def membersOf (table : MemberTable) (owner : JType) (name : String) : List Member :=
  table.members.filter fun m => m.name = name && m.owner = owner

/-! ## Supertypes -/

/-- Declared direct supertypes. -/
def parents (table : MemberTable) (ty : JType) : List JType :=
  match table.info? ty with
  | some info => info.parents
  | none => []

/-- Number of edges that leave declared types outside `seen`. -/
def pendingEdges (seen : List JType) : List (JType × ClassInfo) → Nat
  | [] => 0
  | (ty, info) :: rest =>
      (if ty ∈ seen then 0 else info.parents.length) + pendingEdges seen rest

theorem pendingEdges_append_le (seen more : List JType) (classes : List (JType × ClassInfo)) :
    pendingEdges (seen ++ more) classes ≤ pendingEdges seen classes := by
  induction classes with
  | nil => simp [pendingEdges]
  | cons first rest ih =>
      obtain ⟨ty, info⟩ := first
      simp only [pendingEdges, List.mem_append]
      by_cases known : ty ∈ seen
      · simp [known, ih]
      · by_cases added : ty ∈ more
        · simp only [known, added, or_true, if_true, if_false]
          omega
        · simp [known, added, ih]

/-- Visiting a type moves its edges out of the pending ones. -/
theorem pendingEdges_visit_le (table : MemberTable) {seen : List JType} {ty : JType}
    (fresh : ty ∉ seen) :
    (table.parents ty).length + pendingEdges (seen ++ [ty]) table.classes ≤
      pendingEdges seen table.classes := by
  unfold parents info?
  induction table.classes with
  | nil => simp [pendingEdges]
  | cons first rest ih =>
      obtain ⟨key, info⟩ := first
      by_cases same : ty = key
      · subst same
        have others := pendingEdges_append_le seen [ty] rest
        simp only [List.lookup_cons, beq_self_eq_true, pendingEdges, List.mem_append,
          List.mem_singleton, or_true, if_true, fresh, if_false]
        omega
      · have keyNe : (ty == key) = false := by simpa using same
        have keyNe' : key ≠ ty := fun h => same h.symm
        simp only [List.lookup_cons, keyNe, pendingEdges, List.mem_append, List.mem_singleton, keyNe',
          or_false]
        omega

/-- Visit the queued types and their supertypes, each once, after those of
`order`. -/
def walk (table : MemberTable) (queue order : List JType) : List JType :=
  match queue with
  | [] => order
  | next :: rest =>
      if next ∈ order then table.walk rest order
      else table.walk (rest ++ table.parents next) (order ++ [next])
termination_by queue.length + pendingEdges order table.classes
decreasing_by
  · simp only [List.length_cons]
    omega
  · rename_i fresh
    have moved := pendingEdges_visit_le table fresh
    simp only [List.length_append, List.length_cons]
    omega

/-- A type followed by its supertypes, nearest first.  Every reference type has
the root class among them. -/
def lineage (table : MemberTable) (ty : JType) : List JType :=
  let order := table.walk [ty] []
  if ty.isReference && !order.contains .object then order ++ [.object] else order

/-- Reference subtyping; reflexive on all types. -/
def isSubtype (table : MemberTable) (sub sup : JType) : Bool :=
  sub == sup ||
    match sub, sup with
    | .null, sup => sup.isReference
    | .array elem, .array elem' =>
        !elem.isPrimitive && !elem'.isPrimitive && table.isSubtype elem elem'
    | .array _, .cls name =>
        name == "java/lang/Object" || name == "java/lang/Cloneable" ||
          name == "java/io/Serializable"
    | .cls _, .cls _ | .cls _, .self | .self, .cls _ | .self, .self =>
        (table.lineage sub).contains sup
    | _, _ => false

/-! ## Access -/

/-- Package of a type, empty for types that have none. -/
def packageOf (table : MemberTable) : JType → String
  | .self => table.selfPackage
  | .cls name => packageName name
  | _ => ""

/-- Whether code in `accessor` may use a member of `declaring` with these
flags. -/
def isAccessible (table : MemberTable) (accessor declaring : JType) (access : Access) : Bool :=
  if access.isPublic || accessor == declaring then true
  else if access.isPrivate then false
  else if table.packageOf accessor == table.packageOf declaring then true
  else access.isProtected && table.isSubtype accessor declaring

end MemberTable

end JvmAssembler
