import JvmAssembler.Conversion

/-!
# Finding members

A name is looked up along the lineage of the owner.  Of several methods with
the same parameters only the nearest is visible.  Among the visible overloads
one whose parameters equal the argument types wins; otherwise those applicable
without boxing are tried before the others, and of the applicable ones the
first that is at least as specific as all, or else the first, is taken.
-/

namespace JvmAssembler.MemberTable

/-- Drop members whose parameters an earlier one already has. -/
def keepNearest : List Member → List Member
  | [] => []
  | member :: rest => member :: (keepNearest rest).filter fun other => other.params ≠ member.params

/-- The methods or constructors that a call can mean, nearest first. -/
def visible (table : MemberTable) (owner : JType) (name : String) (isConstructor : Bool) :
    List Member :=
  let owners := if isConstructor then [owner] else table.lineage owner
  let wanted := if isConstructor then constructorName else name
  keepNearest
    (owners.flatMap fun ty => (table.membersOf ty wanted).filter fun m => m.kind ≠ .field)

/-- Whether arguments of these types can be passed, in the strict phase without
boxing. -/
def isApplicable (table : MemberTable) (strict : Bool) (args : List JType) (member : Member) :
    Bool :=
  member.params.length = args.length &&
    (member.params.zip args).all fun (param, arg) =>
      let conversion := Conversion.classify table false arg param
      if strict then conversion.isStrict else conversion.isImplicit

/-- Whether every parameter of `a` converts implicitly to that of `b`. -/
def isMoreSpecific (table : MemberTable) (a b : Member) : Bool :=
  (a.params.zip b.params).all fun (pa, pb) => (Conversion.classify table false pa pb).isImplicit

/-- The member to prefer among applicable ones. -/
def preferred? (table : MemberTable) (applicable : List Member) : Option Member :=
  applicable.find? (fun m => applicable.all (table.isMoreSpecific m)) <|> applicable.head?

/-- The method or constructor that a call with these argument types means. -/
def resolve (table : MemberTable) (owner : JType) (name : String) (args : List JType)
    (isConstructor : Bool) : Option Member :=
  let candidates := table.visible owner name isConstructor
  candidates.find? (fun m => m.params = args)
    <|> table.preferred? (candidates.filter (table.isApplicable true args))
    <|> table.preferred? (candidates.filter (table.isApplicable false args))

/-- The field that a name means. -/
def resolveField (table : MemberTable) (owner : JType) (name : String) : Option Member :=
  (table.lineage owner).findSome? fun ty =>
    (table.membersOf ty name).find? fun m => m.kind = .field

end JvmAssembler.MemberTable
