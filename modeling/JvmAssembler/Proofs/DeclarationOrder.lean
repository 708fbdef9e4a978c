import Mathlib
import JvmAssembler.Proofs.Vocabulary

/-!
# The order of declarations

A member is found through what the table says about types and through the
members with its owner and name, in the order of their declaration.  Neither
depends on whether a type or its members are declared first, with one exception:
a field or method remembers whether its owner was an interface when it was
declared.

Main statement: declarations in two orders, each type declared once and the
members of one owner and name in the same order, give the same answers up to
what members remember about their owners.  Where every field and method is
declared when the table already tells about its owner what it tells in the end,
the answers are the same, and a method is called as one of an interface exactly
if its owner is an interface.
-/

namespace JvmAssembler

/-! ## Tables that answer alike -/

namespace MemberTable

/-- The tables say the same about types, and declare the same members up to what
`view` leaves out. -/
structure Alike (view : Member → Member) (table table' : MemberTable) : Prop where
  info?_eq : ∀ ty, table'.info? ty = table.info? ty
  membersOf_eq : ∀ owner name,
    (table'.membersOf owner name).map view = (table.membersOf owner name).map view

section Types

variable {table table' : MemberTable} (same : ∀ ty, table'.info? ty = table.info? ty)

include same

theorem isInterface_congr (ty : JType) : table'.isInterface ty = table.isInterface ty := by
  rw [isInterface, isInterface, same]

theorem parents_congr (ty : JType) : table'.parents ty = table.parents ty := by
  rw [parents, parents, same]

theorem walk_congr (queue order : List JType) :
    table'.walk queue order = table.walk queue order := by
  induction queue, order using walk.induct table with
  | case1 order => rw [walk, walk]
  | case2 order next rest known ih => rw [walk, walk, if_pos known, if_pos known, ih]
  | case3 order next rest fresh ih =>
      rw [walk, walk, if_neg fresh, if_neg fresh, parents_congr same, ih]

theorem lineage_congr : table'.lineage = table.lineage := by
  funext ty
  rw [lineage, lineage, walk_congr same]

theorem isSubtype_congr : table'.isSubtype = table.isSubtype := by
  funext sub sup
  induction sub generalizing sup with
  | array elem ih =>
      cases sup with
      | array elem' => rw [isSubtype, isSubtype, ih]
      | _ => simp only [isSubtype]
  | _ => cases sup <;> simp only [isSubtype, lineage_congr same]

theorem classify_congr : Conversion.classify table' = Conversion.classify table := by
  funext narrow source target
  unfold Conversion.classify Conversion.ofUnboxing
  rw [isSubtype_congr same]

theorem isApplicable_congr : table'.isApplicable = table.isApplicable := by
  funext strict args member
  rw [isApplicable, isApplicable, classify_congr same]

theorem isMoreSpecific_congr : table'.isMoreSpecific = table.isMoreSpecific := by
  funext a b
  rw [isMoreSpecific, isMoreSpecific, classify_congr same]

theorem preferred?_congr : table'.preferred? = table.preferred? := by
  funext applicable
  rw [preferred?, preferred?, isMoreSpecific_congr same]

end Types

/-! ## Looking up members -/

/-- What is left out of members neither tells overloads apart nor fields from
methods. -/
structure Blind (view : Member → Member) : Prop where
  params_eq : ∀ m, (view m).params = m.params
  kind_eq : ∀ m, (view m).kind = m.kind

/-- The member that a call means among those that it can mean. -/
def choose (table : MemberTable) (args : List JType) (candidates : List Member) : Option Member :=
  candidates.find? (fun m => m.params = args)
    <|> table.preferred? (candidates.filter (table.isApplicable true args))
    <|> table.preferred? (candidates.filter (table.isApplicable false args))

theorem resolve_eq (table : MemberTable) (owner : JType) (name : String) (args : List JType)
    (isConstructor : Bool) :
    table.resolve owner name args isConstructor =
      table.choose args (table.visible owner name isConstructor) :=
  rfl

section View

variable {view : Member → Member} (blind : Blind view) (table : MemberTable)

include blind

theorem keepNearest_map (members : List Member) :
    keepNearest (members.map view) = (keepNearest members).map view := by
  induction members with
  | nil => rfl
  | cons first rest ih =>
      simp only [List.map_cons, keepNearest, ih, List.filter_map, Function.comp_def,
        blind.params_eq]

theorem isApplicable_view (strict : Bool) (args : List JType) :
    table.isApplicable strict args ∘ view = table.isApplicable strict args := by
  funext m
  simp only [Function.comp_apply, isApplicable, blind.params_eq]

theorem preferred?_map (applicable : List Member) :
    table.preferred? (applicable.map view) = (table.preferred? applicable).map view := by
  have specific (a b : Member) : table.isMoreSpecific (view a) (view b) =
      table.isMoreSpecific a b := by
    simp only [isMoreSpecific, blind.params_eq]
  simp only [preferred?, List.find?_map, List.all_map, Function.comp_def, specific,
    List.head?_map, Option.orElse_eq_orElse, Option.orElse_eq_or, Option.map_or]

theorem choose_map (args : List JType) (candidates : List Member) :
    table.choose args (candidates.map view) = (table.choose args candidates).map view := by
  simp only [choose, List.find?_map, List.filter_map, isApplicable_view blind,
    preferred?_map blind, Function.comp_def, blind.params_eq, Option.orElse_eq_orElse,
    Option.orElse_eq_or, Option.map_or]

variable {table} {table' : MemberTable} (alike : Alike view table table')

include alike

theorem Alike.visible_map_eq (owner : JType) (name : String) (isConstructor : Bool) :
    (table'.visible owner name isConstructor).map view =
      (table.visible owner name isConstructor).map view := by
  have callable (table : MemberTable) (ty : JType) (wanted : String) :
      ((table.membersOf ty wanted).filter fun m => m.kind ≠ .field).map view =
        ((table.membersOf ty wanted).map view).filter fun m => m.kind ≠ .field := by
    simp only [List.filter_map, Function.comp_def, blind.kind_eq]
  simp only [visible, ← keepNearest_map blind, List.map_flatMap, callable,
    lineage_congr alike.info?_eq, alike.membersOf_eq]

/-- A call means the same member in both tables, up to what the view leaves
out. -/
theorem Alike.resolve_map_eq (owner : JType) (name : String) (args : List JType)
    (isConstructor : Bool) :
    (table'.resolve owner name args isConstructor).map view =
      (table.resolve owner name args isConstructor).map view := by
  have chooses : table'.choose = table.choose := by
    funext args candidates
    rw [choose, choose, preferred?_congr alike.info?_eq, isApplicable_congr alike.info?_eq]
  rw [resolve_eq, resolve_eq, ← choose_map blind, ← choose_map blind, chooses,
    alike.visible_map_eq blind]

theorem Alike.resolveField_map_eq (owner : JType) (name : String) :
    (table'.resolveField owner name).map view = (table.resolveField owner name).map view := by
  have field (table : MemberTable) (ty : JType) :
      ((table.membersOf ty name).find? fun m => m.kind = .field).map view =
        ((table.membersOf ty name).map view).find? fun m => m.kind = .field := by
    simp only [List.find?_map, Function.comp_def, blind.kind_eq]
  simp only [resolveField, List.map_findSome?, Function.comp_def, field,
    lineage_congr alike.info?_eq, alike.membersOf_eq]

end View

end MemberTable

/-! ## Declarations -/

/-- A declaration of a type or of a member. -/
inductive Declaration where
  | cls (name superclass : String) (interfaces : List String)
  | interface (name : String) (extended : List String)
  | field (owner : JType) (name : String) (type : JType) (access : Access)
  | method (owner : JType) (name : String) (params : List JType) (result : JType)
      (access : Access) (throws : List JType)
  | constructor (owner : JType) (params : List JType) (access : Access)
  deriving DecidableEq

namespace MemberTable

/-- The table after one more declaration. -/
def declare (table : MemberTable) : Declaration → MemberTable
  | .cls name superclass interfaces => table.declareClass name superclass interfaces
  | .interface name extended => table.declareInterface name extended
  | .field owner name type access => table.declareField owner name type access
  | .method owner name params result access throws =>
      table.declareMethod owner name params result access throws
  | .constructor owner params access => table.declareConstructor owner params access

/-- The table after declarations, in order. -/
def declareAll (table : MemberTable) (declarations : List Declaration) : MemberTable :=
  declarations.foldl declare table

end MemberTable

namespace Declaration

/-- The type that is declared and what is said about it. -/
def type? : Declaration → Option (JType × ClassInfo)
  | .cls name superclass interfaces =>
      some (.named name, ⟨some (.named superclass), interfaces.map .named, false⟩)
  | .interface name extended => some (.named name, ⟨some .object, extended.map .named, true⟩)
  | _ => none

/-- The member that is declared, where `isInterface` tells about owners. -/
def member? (isInterface : JType → Bool) : Declaration → Option Member
  | .field owner name type access =>
      some
        { owner, name, kind := .field, signature := ⟨[], type⟩, throws := [], access,
          ownerIsInterface := isInterface owner }
  | .method owner name params result access throws =>
      some
        { owner, name, kind := .method, signature := ⟨params, result⟩, throws, access,
          ownerIsInterface := isInterface owner }
  | .constructor owner params access =>
      some
        { owner, name := constructorName, kind := .constructor, signature := ⟨params, .void⟩,
          throws := [], access, ownerIsInterface := false }
  | _ => none

/-- The owner whose being an interface is remembered with the member. -/
def owner? : Declaration → Option JType
  | .field owner .. | .method owner .. => some owner
  | _ => none

/-- Whether a member with this owner and name is declared. -/
def isNamed (owner : JType) (name : String) (declaration : Declaration) : Bool :=
  (declaration.member? fun _ => false).any fun m => m.name = name && m.owner = owner

end Declaration

/-- Declarations in two orders.  No type is declared twice, and the declarations
of members with the same owner and name keep their order. -/
structure Reordered (declarations declarations' : List Declaration) : Prop where
  perm : declarations.Perm declarations'
  once : ((declarations.filterMap Declaration.type?).map Prod.fst).Nodup
  order : ∀ owner name, declarations'.filter (Declaration.isNamed owner name) =
    declarations.filter (Declaration.isNamed owner name)

namespace MemberTable

variable {base : MemberTable} {declarations declarations' : List Declaration}

/-! ## What declarations add to a table -/

theorem declare_classes (table : MemberTable) (declaration : Declaration) :
    (table.declare declaration).classes = declaration.type?.toList ++ table.classes := by
  cases declaration <;> rfl

theorem declare_members (table : MemberTable) (declaration : Declaration) :
    (table.declare declaration).members =
      table.members ++ (declaration.member? table.isInterface).toList := by
  cases declaration <;> simp [declare, declareClass, declareInterface, declareType, declareField,
    declareMethod, declareConstructor, insert, Declaration.member?]

theorem declareAll_classes (table : MemberTable) (declarations : List Declaration) :
    (table.declareAll declarations).classes =
      (declarations.filterMap Declaration.type?).reverse ++ table.classes := by
  induction declarations generalizing table with
  | nil => rfl
  | cons declaration rest ih =>
      change ((table.declare declaration).declareAll rest).classes = _
      rw [ih, declare_classes]
      cases typed : declaration.type? <;> simp [typed]

/-- The members that declarations add, each as the table stands when it is
declared. -/
def added (table : MemberTable) : List Declaration → List Member
  | [] => []
  | declaration :: rest =>
      (declaration.member? table.isInterface).toList ++ (table.declare declaration).added rest

theorem declareAll_members (table : MemberTable) (declarations : List Declaration) :
    (table.declareAll declarations).members = table.members ++ table.added declarations := by
  induction declarations generalizing table with
  | nil => simp [declareAll, added]
  | cons declaration rest ih =>
      change ((table.declare declaration).declareAll rest).members = _
      rw [ih, declare_members, added, List.append_assoc]

theorem membersOf_declareAll (owner : JType) (name : String) :
    (base.declareAll declarations).membersOf owner name =
      base.membersOf owner name ++
        (base.added declarations).filter fun m => m.name = name && m.owner = owner := by
  rw [membersOf, declareAll_members, List.filter_append]
  rfl

/-! ## Types in two orders -/

/-- Where every key stands once, the order does not matter. -/
theorem lookup_eq_of_perm {entries entries' : List (JType × ClassInfo)}
    (perm : entries.Perm entries') (once : (entries.map Prod.fst).Nodup) (ty : JType) :
    entries'.lookup ty = entries.lookup ty := by
  induction perm with
  | nil => rfl
  | cons entry _ ih =>
      rw [List.lookup_cons, List.lookup_cons, ih (List.nodup_cons.mp once).2]
  | swap first second rest =>
      obtain ⟨first, info⟩ := first
      obtain ⟨second, info'⟩ := second
      have differ : second ≠ first := by
        rintro rfl
        simp at once
      simp only [List.lookup_cons]
      by_cases isFirst : ty = first
      · simp [isFirst, beq_false_of_ne differ.symm]
      · simp [beq_false_of_ne isFirst]
  | trans perm _ ih ih' =>
      rw [ih' ((perm.map Prod.fst).nodup_iff.mp once), ih once]

theorem info?_of_reordered (reordered : Reordered declarations declarations') (ty : JType) :
    (base.declareAll declarations').info? ty = (base.declareAll declarations).info? ty := by
  have perm : (declarations.filterMap Declaration.type?).reverse.Perm
      (declarations'.filterMap Declaration.type?).reverse :=
    (List.reverse_perm _).trans
      ((reordered.perm.filterMap Declaration.type?).trans (List.reverse_perm _).symm)
  have once : ((declarations.filterMap Declaration.type?).reverse.map Prod.fst).Nodup := by
    rw [List.map_reverse, List.nodup_reverse]
    exact reordered.once
  rw [info?, info?, declareAll_classes, declareAll_classes, List.lookup_append, List.lookup_append,
    lookup_eq_of_perm perm once]

/-! ## Members in two orders -/

/-- Whether a declaration declares a member with an owner and a name does not
depend on what is known about owners. -/
theorem filter_filterMap_member? (isInterface : JType → Bool) (owner : JType) (name : String)
    (declarations : List Declaration) :
    (declarations.filterMap (Declaration.member? isInterface)).filter
        (fun m => m.name = name && m.owner = owner) =
      (declarations.filter (Declaration.isNamed owner name)).filterMap
        (Declaration.member? isInterface) := by
  rw [List.filter_filterMap, List.filterMap_filter]
  congr 1
  funext declaration
  cases declaration <;> simp [Declaration.isNamed, Declaration.member?, Option.filter]

/-- Whether the table tells about the owner of each field and method, when it is
declared, what `isInterface` tells. -/
def settledFrom (isInterface : JType → Bool) (table : MemberTable) : List Declaration → Bool
  | [] => true
  | declaration :: rest =>
      (declaration.owner?.all fun owner => table.isInterface owner == isInterface owner) &&
        settledFrom isInterface (table.declare declaration) rest

/-- Whether the table tells about the owner of each field and method, when it is
declared, what it tells in the end. -/
def settles (table : MemberTable) (declarations : List Declaration) : Bool :=
  table.settledFrom (table.declareAll declarations).isInterface declarations

theorem isInterface_declareAll {ty : JType} (table : MemberTable)
    (undeclared : ∀ declaration ∈ declarations, declaration.type?.map Prod.fst ≠ some ty) :
    (table.declareAll declarations).isInterface ty = table.isInterface ty := by
  have unlisted : (declarations.filterMap Declaration.type?).reverse.lookup ty = none := by
    refine List.lookup_eq_none_iff.mpr fun entry mem => ?_
    obtain ⟨declaration, isDeclared, isEntry⟩ := List.mem_filterMap.mp (List.mem_reverse.mp mem)
    refine bne_iff_ne.mpr fun same => undeclared declaration isDeclared ?_
    rw [isEntry, Option.map_some, same]
  simp [isInterface, info?, declareAll_classes, List.lookup_append, unlisted]

/-- What the table tells is settled where each type is declared before its fields
and methods. -/
theorem settles_of_typesFirst (table : MemberTable)
    (typesFirst : declarations.Pairwise fun earlier later =>
      earlier.owner? = none ∨ later.type?.map Prod.fst ≠ earlier.owner?) :
    table.settles declarations = true := by
  unfold settles
  induction declarations generalizing table with
  | nil => rfl
  | cons declaration rest ih =>
      obtain ⟨here, others⟩ := List.pairwise_cons.mp typesFirst
      simp only [settledFrom, Bool.and_eq_true]
      refine ⟨?_, ih (table.declare declaration) others⟩
      cases isOwner : declaration.owner? with
      | none => rfl
      | some owner =>
          have undeclared : ∀ other ∈ declaration :: rest, other.type?.map Prod.fst ≠ some owner := by
            refine List.forall_mem_cons.mpr ⟨?_, fun other mem => ?_⟩
            · cases declaration <;> simp_all [Declaration.owner?, Declaration.type?]
            · exact isOwner ▸ (here other mem).resolve_left (by simp [isOwner])
          simp [isInterface_declareAll table undeclared]

theorem added_of_settledFrom {isInterface : JType → Bool} {table : MemberTable}
    (settled : table.settledFrom isInterface declarations = true) :
    table.added declarations = declarations.filterMap (Declaration.member? isInterface) := by
  induction declarations generalizing table with
  | nil => rfl
  | cons declaration rest ih =>
      simp only [settledFrom, Bool.and_eq_true] at settled
      have now : declaration.member? table.isInterface = declaration.member? isInterface := by
        cases declaration <;> simp_all [Declaration.member?, Declaration.owner?]
      rw [added, ih settled.2, now, List.filterMap_cons]
      cases declaration.member? isInterface <;> rfl

end MemberTable

/-- The member without what it remembers about its owner. -/
def Member.unflagged (m : Member) : Member :=
  { m with ownerIsInterface := false }

namespace MemberTable

variable {base : MemberTable} {declarations declarations' : List Declaration}

theorem blind_unflagged : Blind Member.unflagged :=
  ⟨fun _ => rfl, fun _ => rfl⟩

theorem blind_id : Blind id :=
  ⟨fun _ => rfl, fun _ => rfl⟩

theorem added_map_unflagged (table : MemberTable) (declarations : List Declaration) :
    (table.added declarations).map Member.unflagged =
      declarations.filterMap (Declaration.member? fun _ => false) := by
  induction declarations generalizing table with
  | nil => rfl
  | cons declaration rest ih =>
      have plain : (declaration.member? table.isInterface).map Member.unflagged =
          declaration.member? fun _ => false := by
        cases declaration <;> rfl
      rw [added, List.map_append, ih, List.filterMap_cons, ← plain]
      cases declaration.member? table.isInterface <;> rfl

/-- The order matters at most for what members remember about their owners. -/
theorem alike_unflagged (reordered : Reordered declarations declarations') :
    Alike Member.unflagged (base.declareAll declarations) (base.declareAll declarations') where
  info?_eq := info?_of_reordered reordered
  membersOf_eq owner name := by
    have plain (declarations : List Declaration) :
        ((base.added declarations).filter
          fun m => m.name = name && m.owner = owner).map Member.unflagged =
        (declarations.filter (Declaration.isNamed owner name)).filterMap
          (Declaration.member? fun _ => false) := by
      rw [← filter_filterMap_member?, ← added_map_unflagged base, List.filter_map]
      rfl
    rw [membersOf_declareAll, membersOf_declareAll, List.map_append, List.map_append, plain, plain,
      reordered.order]

/-- It does not matter where these are settled. -/
theorem alike_of_settles (reordered : Reordered declarations declarations')
    (settled : base.settles declarations = true) (settled' : base.settles declarations' = true) :
    Alike id (base.declareAll declarations) (base.declareAll declarations') where
  info?_eq := info?_of_reordered reordered
  membersOf_eq owner name := by
    have same : (base.declareAll declarations').isInterface =
        (base.declareAll declarations).isInterface :=
      funext (isInterface_congr (info?_of_reordered reordered))
    rw [membersOf_declareAll, membersOf_declareAll, added_of_settledFrom settled,
      added_of_settledFrom settled', filter_filterMap_member?, filter_filterMap_member?, same,
      reordered.order]

/-- In a table that is built from declarations, methods remember about their
owners what the table tells. -/
theorem ownerIsInterface_of_settles (empty : base.members = [])
    (settled : base.settles declarations = true) {m : Member}
    (mem : m ∈ (base.declareAll declarations).members) (isMethod : m.kind = .method) :
    m.ownerIsInterface = (base.declareAll declarations).isInterface m.owner := by
  rw [declareAll_members, empty, List.nil_append, added_of_settledFrom settled] at mem
  obtain ⟨declaration, -, declared⟩ := List.mem_filterMap.mp mem
  cases declaration <;> simp only [Declaration.member?, Option.some.injEq, reduceCtorEq] at declared
  all_goals
    subst declared
    first | contradiction | rfl

theorem invokeOpcode_eq_invokeinterface (m : Member) :
    Gen.invokeOpcode m = .invokeinterface ↔ m.ownerIsInterface = true := by
  unfold Gen.invokeOpcode
  cases m.ownerIsInterface with
  | true => simp
  | false =>
      simp only [Bool.false_eq_true, if_false, iff_false]
      split <;> decide

/-- Declarations in two orders give the same answers, up to what members remember
about their owners.  If what the table tells about the owner of each field and
method is settled when it is declared, the answers are the same; and in a table
that is built from declarations a method is then called as one of an interface
exactly if the table holds its owner as an interface. -/
theorem resolve_of_reordered (base : MemberTable)
    (reordered : Reordered declarations declarations') :
    (∀ owner name args isConstructor,
      ((base.declareAll declarations').resolve owner name args isConstructor).map Member.unflagged =
        ((base.declareAll declarations).resolve owner name args isConstructor).map
          Member.unflagged) ∧
    (∀ owner name,
      ((base.declareAll declarations').resolveField owner name).map Member.unflagged =
        ((base.declareAll declarations).resolveField owner name).map Member.unflagged) ∧
    (base.settles declarations = true → base.settles declarations' = true →
      (∀ owner name args isConstructor,
        (base.declareAll declarations').resolve owner name args isConstructor =
          (base.declareAll declarations).resolve owner name args isConstructor) ∧
      (∀ owner name, (base.declareAll declarations').resolveField owner name =
        (base.declareAll declarations).resolveField owner name) ∧
      (base.members = [] → ∀ owner name args isConstructor method,
        (base.declareAll declarations).resolve owner name args isConstructor = some method →
        method.kind = .method →
          (method.ownerIsInterface = true ↔
            (base.declareAll declarations).isInterface method.owner = true) ∧
          (Gen.invokeOpcode method = .invokeinterface ↔
            (base.declareAll declarations).isInterface method.owner = true))) := by
  have upToFlags : Alike Member.unflagged (base.declareAll declarations)
      (base.declareAll declarations') := alike_unflagged reordered
  refine ⟨upToFlags.resolve_map_eq blind_unflagged, upToFlags.resolveField_map_eq blind_unflagged,
    fun settled settled' => ?_⟩
  have exactly := alike_of_settles reordered settled settled'
  refine ⟨fun owner name args isConstructor => ?_, fun owner name => ?_, ?_⟩
  · simpa using exactly.resolve_map_eq blind_id owner name args isConstructor
  · simpa using exactly.resolveField_map_eq blind_id owner name
  · intro empty owner name args isConstructor method found isMethod
    rw [invokeOpcode_eq_invokeinterface,
      ownerIsInterface_of_settles empty settled (of_resolve found).1 isMethod]
    exact ⟨Iff.rfl, Iff.rfl⟩

end MemberTable

namespace Sample

/-- `interface Task { void run(); }` -/
def taskDeclarations : List Declaration :=
  [.interface "demo.Task" [],
    .method (.named "demo.Task") "run" [] .void .publicFlag []]

/-- `class Job implements Task { Job(); void run(); void run(int); }` -/
def jobDeclarations : List Declaration :=
  [.cls "demo.Job" "java.lang.Object" ["demo.Task"],
    .constructor (.named "demo.Job") [] .publicFlag,
    .method (.named "demo.Job") "run" [] .void .publicFlag [],
    .method (.named "demo.Job") "run" [.int] .void .publicFlag []]

/-- The method `run` of a type, as it is declared where the type is an interface
or is not. -/
def runOf (owner : JType) (ownerIsInterface : Bool) : Member where
  owner := owner
  name := "run"
  kind := .method
  signature := ⟨[], .void⟩
  throws := []
  access := .publicFlag
  ownerIsInterface := ownerIsInterface

theorem taskAndJob_reordered :
    Reordered (taskDeclarations ++ jobDeclarations) (jobDeclarations ++ taskDeclarations) where
  perm := List.perm_append_comm
  once := by decide
  order owner name := by
    rw [List.filter_append, List.filter_append]
    by_cases isJob : owner = .named "demo.Job"
    · have noTask : taskDeclarations.filter (Declaration.isNamed owner name) = [] := by
        have differ : JType.named "demo.Task" ≠ .named "demo.Job" := by decide
        simp [taskDeclarations, Declaration.isNamed, Declaration.member?, isJob, differ]
      rw [noTask, List.nil_append, List.append_nil]
    · have noJob : jobDeclarations.filter (Declaration.isNamed owner name) = [] := by
        simp [jobDeclarations, Declaration.isNamed, Declaration.member?, Ne.symm isJob]
      rw [noJob, List.nil_append, List.append_nil]

/-- A class may come before an interface that it implements. -/
theorem taskAndJob_resolve :
    Reordered (taskDeclarations ++ jobDeclarations) (jobDeclarations ++ taskDeclarations) ∧
      MemberTable.new.settles (taskDeclarations ++ jobDeclarations) = true ∧
      MemberTable.new.settles (jobDeclarations ++ taskDeclarations) = true ∧
      (MemberTable.new.declareAll (taskDeclarations ++ jobDeclarations)).resolve
        (.named "demo.Task") "run" [] false = some (runOf (.named "demo.Task") true) ∧
      (MemberTable.new.declareAll (jobDeclarations ++ taskDeclarations)).resolve
        (.named "demo.Task") "run" [] false = some (runOf (.named "demo.Task") true) ∧
      (Gen.invokeOpcode (runOf (.named "demo.Task") true) = .invokeinterface ↔
        (MemberTable.new.declareAll (taskDeclarations ++ jobDeclarations)).isInterface
          (.named "demo.Task") = true) := by
  have settled : MemberTable.new.settles (taskDeclarations ++ jobDeclarations) = true :=
    MemberTable.settles_of_typesFirst _ (by decide +kernel)
  have settled' : MemberTable.new.settles (jobDeclarations ++ taskDeclarations) = true :=
    MemberTable.settles_of_typesFirst _ (by decide +kernel)
  have found : (MemberTable.new.declareAll (taskDeclarations ++ jobDeclarations)).resolve
      (.named "demo.Task") "run" [] false = some (runOf (.named "demo.Task") true) := by
    decide +kernel
  obtain ⟨-, -, exactly⟩ := MemberTable.resolve_of_reordered .new taskAndJob_reordered
  obtain ⟨resolves, -, calls⟩ := exactly settled settled'
  exact ⟨taskAndJob_reordered, settled, settled', found, (resolves _ _ _ _).trans found,
    (calls rfl _ _ _ _ _ found rfl).2⟩

/-- A method that is declared before its interface is called as one of a class. -/
theorem runBeforeTask_resolve :
    Reordered taskDeclarations taskDeclarations.reverse ∧
      (MemberTable.new.declareAll taskDeclarations.reverse).isInterface (.named "demo.Task") =
        true ∧
      (MemberTable.new.declareAll taskDeclarations).resolve (.named "demo.Task") "run" [] false =
        some (runOf (.named "demo.Task") true) ∧
      (MemberTable.new.declareAll taskDeclarations.reverse).resolve (.named "demo.Task") "run" []
        false = some (runOf (.named "demo.Task") false) ∧
      Gen.invokeOpcode (runOf (.named "demo.Task") false) = .invokevirtual := by
  have reordered : Reordered taskDeclarations taskDeclarations.reverse :=
    ⟨(List.reverse_perm _).symm, by decide, fun _ _ => rfl⟩
  exact ⟨reordered, by decide +kernel, by decide +kernel, by decide +kernel, by decide⟩

end Sample

end JvmAssembler
