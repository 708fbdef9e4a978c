import Mathlib
import JvmAssembler.MemberTable.JavaLang
import JvmAssembler.Proofs.DeclarationOrder

/-!
# Overload resolution

Which member a call means, said without the search for it.  A call sees the
members with its name along the lineage of the owner, of which a nearer type's
and an earlier declaration hide those with the same parameters.  Among these it
means the one whose parameters are the argument types; otherwise one that takes
the arguments without boxing or unboxing, if there is any, and otherwise one that
takes them at all.  If some of the members it chooses from is at least as specific
as all of them, it means such a one.

Main statement: this is the member that is found, and none is found exactly if no
visible member takes the arguments.
-/

namespace JvmAssembler

namespace Conversion

/-- Conversions that box or unbox a value. -/
def usesBox : Conversion → Bool
  | .boxing | .boxingWidening | .unboxing | .unboxingWidening | .checkedUnboxing => true
  | _ => false

theorem isStrict_iff {conversion : Conversion} :
    conversion.isStrict = true ↔ conversion.isImplicit = true ∧ conversion.usesBox = false := by
  cases conversion <;> simp [isStrict, isImplicit, usesBox]

end Conversion

/-- A method or constructor that is declared under this name. -/
def Member.IsCallable (name : String) (m : Member) : Prop :=
  m.name = name ∧ m.kind ≠ .field

instance (name : String) (m : Member) : Decidable (m.IsCallable name) :=
  inferInstanceAs (Decidable (_ ∧ _))

namespace MemberTable

/-! ## Specification -/

section Specification

variable (table : MemberTable)

/-- The types on which a call looks for members, nearest first. -/
def searched (owner : JType) (isConstructor : Bool) : List JType :=
  if isConstructor then [owner] else table.lineage owner

/-- An argument of one type can be passed where the other is declared, without
boxing and unboxing if `strict`. -/
def Passes (strict : Bool) (arg param : JType) : Prop :=
  let conversion := Conversion.classify table false arg param
  conversion.isImplicit = true ∧ (strict = true → conversion.usesBox = false)

/-- Arguments of these types can be passed to the member, which has as many
parameters. -/
def Applicable (strict : Bool) (args : List JType) (m : Member) : Prop :=
  List.Forall₂ (table.Passes strict) args m.params

/-- Whatever the parameters of `a` can hold can be passed to `b`. -/
def AtLeastAsSpecific (a b : Member) : Prop :=
  List.Forall₂ (table.Passes false) a.params b.params

variable (owner : JType) (name : String) (isConstructor : Bool)

/-- The member is declared under the sought name on a searched type.  No nearer
type declares one with the same parameters, and the type itself none earlier. -/
def IsVisible (m : Member) : Prop :=
  let sought := if isConstructor then constructorName else name
  m.IsCallable sought ∧
    ∃ nearer farther earlier later,
      table.searched owner isConstructor = nearer ++ m.owner :: farther ∧
      table.members = earlier ++ m :: later ∧
      (∀ other ∈ table.members, other.IsCallable sought → other.owner ∈ nearer →
        other.params ≠ m.params) ∧
      ∀ other ∈ earlier, other.IsCallable sought → other.owner = m.owner →
        other.params ≠ m.params

variable (args : List JType)

/-- The visible members that take the arguments. -/
def Candidate (strict : Bool) (m : Member) : Prop :=
  table.IsVisible owner name isConstructor m ∧ table.Applicable strict args m

/-- A candidate that is at least as specific as all candidates. -/
def MostSpecific (strict : Bool) (m : Member) : Prop :=
  table.Candidate owner name isConstructor args strict m ∧
    ∀ other, table.Candidate owner name isConstructor args strict other →
      table.AtLeastAsSpecific m other

/-- A candidate that is most specific if there is such a one. -/
def Preferred (strict : Bool) (m : Member) : Prop :=
  table.Candidate owner name isConstructor args strict m ∧
    ((∃ best, table.MostSpecific owner name isConstructor args strict best) →
      table.MostSpecific owner name isConstructor args strict m)

/-- The member that a call means. -/
structure Means (m : Member) : Prop where
  visible : table.IsVisible owner name isConstructor m
  exactly : ∀ other, table.IsVisible owner name isConstructor other → other.params = args →
    m = other
  strictly : (∃ other, table.Candidate owner name isConstructor args true other) →
    table.Preferred owner name isConstructor args true m
  loosely : (¬∃ other, table.Candidate owner name isConstructor args true other) →
    table.Preferred owner name isConstructor args false m

end Specification

variable {table : MemberTable} {owner : JType} {name : String} {isConstructor strict : Bool}
variable {args : List JType} {m m' : Member} {members : List Member}

/-! ## Visible members -/

/-- A member is kept if it is the first one with its parameters. -/
theorem mem_keepNearest_iff :
    m ∈ keepNearest members ↔ members.find? (fun other => other.params = m.params) = some m := by
  induction members with
  | nil => simp [keepNearest]
  | cons first rest ih =>
      by_cases hidden : first.params = m.params
      · simp only [keepNearest, List.mem_cons, List.mem_filter, hidden, decide_true,
          List.find?_cons_of_pos, Option.some.injEq]
        simp [eq_comm]
      · have differs : m ≠ first := fun same => hidden (same ▸ rfl)
        simp [keepNearest, hidden, ih, differs, Ne.symm hidden]

theorem eq_of_mem_keepNearest (mem : m ∈ keepNearest members) (mem' : m' ∈ keepNearest members)
    (same : m.params = m'.params) : m = m' := by
  rw [mem_keepNearest_iff] at mem mem'
  rw [same, mem'] at mem
  exact (Option.some.inj mem).symm

/-- The first member with these parameters that a type declares under a name. -/
theorem find?_membersOf (table : MemberTable) (ty : JType) (sought : String)
    (params : List JType) :
    ((table.membersOf ty sought).filter fun m => m.kind ≠ .field).find?
        (fun m => m.params = params) =
      table.members.find? fun m =>
        decide (m.IsCallable sought ∧ m.owner = ty ∧ m.params = params) := by
  rw [membersOf, List.filter_filter, List.find?_filter]
  congr 1
  funext m
  simp only [Member.IsCallable]
  grind

theorem mem_visible_iff :
    m ∈ table.visible owner name isConstructor ↔ table.IsVisible owner name isConstructor m := by
  rw [visible, mem_keepNearest_iff, List.find?_flatMap, List.findSome?_eq_some_iff]
  simp only [find?_membersOf, List.find?_eq_some_iff_append, List.find?_eq_none, decide_eq_true_eq,
    Bool.not_eq_true', decide_eq_false_iff_not, and_true]
  constructor
  · rintro ⟨nearer, ty, farther, searched, ⟨⟨callable, rfl⟩, earlier, later, declared, first⟩,
      unhidden⟩
    refine ⟨callable, nearer, farther, earlier, later, searched, declared, ?_, ?_⟩
    · intro other mem isCallable near same
      exact unhidden other.owner near other mem ⟨isCallable, rfl, same⟩
    · intro other mem isCallable onType same
      exact first other mem ⟨isCallable, onType, same⟩
  · rintro ⟨callable, nearer, farther, earlier, later, searched, declared, unhidden, first⟩
    refine ⟨nearer, m.owner, farther, searched, ⟨⟨callable, rfl⟩, earlier, later, declared, ?_⟩, ?_⟩
    · rintro other mem ⟨isCallable, onType, same⟩
      exact first other mem isCallable onType same
    · rintro ty near other mem ⟨isCallable, rfl, same⟩
      exact unhidden other mem isCallable near same

/-! ## Applicable members -/

theorem isApplicable_iff : table.isApplicable strict args m = true ↔
    table.Applicable strict args m := by
  have passes (arg param : JType) :
      (if strict then (Conversion.classify table false arg param).isStrict
        else (Conversion.classify table false arg param).isImplicit) = true ↔
      table.Passes strict arg param := by
    cases strict <;> simp [Passes, Conversion.isStrict_iff]
  have flipped : table.Applicable strict args m ↔
      List.Forall₂ (flip (table.Passes strict)) m.params args :=
    ⟨List.Forall₂.flip, List.Forall₂.flip⟩
  rw [flipped, List.forall₂_iff_zip]
  simp [isApplicable, passes, flip]

theorem isMoreSpecific_iff {a b : Member} (sameLength : a.params.length = b.params.length) :
    table.isMoreSpecific a b = true ↔ table.AtLeastAsSpecific a b := by
  rw [AtLeastAsSpecific, List.forall₂_iff_zip]
  simp [isMoreSpecific, Passes, sameLength]

theorem Applicable.loose (applicable : table.Applicable strict args m) :
    table.Applicable false args m :=
  applicable.imp fun _ _ passes => ⟨passes.1, by simp⟩

theorem Applicable.length_eq (applicable : table.Applicable strict args m) :
    m.params.length = args.length :=
  (List.Forall₂.length_eq applicable).symm

/-- A member whose parameters are the argument types takes the arguments as they
are. -/
theorem applicable_of_params_eq (same : m.params = args) : table.Applicable strict args m := by
  rw [Applicable, same, List.forall₂_same]
  intro ty _
  simp [Passes, Conversion.classify, Conversion.isImplicit, Conversion.usesBox]

/-! ## The choice -/

theorem preferred?_eq_none {applicable : List Member} :
    table.preferred? applicable = none ↔ applicable = [] := by
  cases applicable with
  | nil => simp [preferred?]
  | cons first rest => simp [preferred?]

/-- The preferred one of several members is at least as specific as all of them,
if one is. -/
theorem of_preferred? {applicable : List Member} (preferred : table.preferred? applicable = some m) :
    m ∈ applicable ∧
      ((∃ best ∈ applicable, ∀ other ∈ applicable, table.isMoreSpecific best other = true) →
        ∀ other ∈ applicable, table.isMoreSpecific m other = true) := by
  unfold preferred? at preferred
  simp only [Option.orElse_eq_orElse, Option.orElse_eq_or, Option.or_eq_some_iff] at preferred
  rcases preferred with found | ⟨noBest, isHead⟩
  · have best := List.find?_some found
    exact ⟨List.mem_of_find?_eq_some found, fun _ => by simpa using best⟩
  · refine ⟨List.mem_of_head? isHead, ?_⟩
    rintro ⟨best, mem, specific⟩
    have notBest := List.find?_eq_none.mp noBest best mem
    exact absurd (by simpa using specific) notBest

/-- The list of the candidates that a call chooses from. -/
theorem mem_filter_isApplicable :
    m ∈ (table.visible owner name isConstructor).filter (table.isApplicable strict args) ↔
      table.Candidate owner name isConstructor args strict m := by
  rw [List.mem_filter, mem_visible_iff, isApplicable_iff, Candidate]

/-- The preferred member among the listed candidates. -/
theorem preferred_of_preferred?
    (chosen : table.preferred?
      ((table.visible owner name isConstructor).filter (table.isApplicable strict args)) = some m) :
    table.Preferred owner name isConstructor args strict m := by
  obtain ⟨mem, specific⟩ := of_preferred? chosen
  simp only [mem_filter_isApplicable] at mem specific
  have specific_iff {a b : Member} (first : table.Candidate owner name isConstructor args strict a)
      (second : table.Candidate owner name isConstructor args strict b) :
      table.isMoreSpecific a b = true ↔ table.AtLeastAsSpecific a b :=
    isMoreSpecific_iff (first.2.length_eq.trans second.2.length_eq.symm)
  refine ⟨mem, ?_⟩
  rintro ⟨best, candidate, mostSpecific⟩
  refine ⟨mem, fun other isCandidate => (specific_iff mem isCandidate).mp ?_⟩
  refine specific ⟨best, candidate, fun another also => ?_⟩ other isCandidate
  exact (specific_iff candidate also).mpr (mostSpecific another also)

/-- A visible member whose parameters are the argument types is the most specific
one. -/
theorem mostSpecific_of_params_eq (visible : table.IsVisible owner name isConstructor m)
    (same : m.params = args) :
    table.MostSpecific owner name isConstructor args true m := by
  refine ⟨⟨visible, applicable_of_params_eq same⟩, fun other candidate => ?_⟩
  rw [AtLeastAsSpecific, same]
  exact candidate.2.loose

/-- A call finds a member with exactly the argument types as parameters, or
otherwise the preferred strict candidate, or otherwise the preferred loose one. -/
theorem resolve_eq_or (table : MemberTable) (owner : JType) (name : String) (args : List JType)
    (isConstructor : Bool) :
    table.resolve owner name args isConstructor =
      ((table.visible owner name isConstructor).find? fun m => m.params = args).or
        ((table.preferred?
            ((table.visible owner name isConstructor).filter (table.isApplicable true args))).or
          (table.preferred?
            ((table.visible owner name isConstructor).filter (table.isApplicable false args)))) := by
  simp only [resolve_eq, choose, Option.orElse_eq_orElse, Option.orElse_eq_or]

theorem filter_isApplicable_eq_nil :
    (table.visible owner name isConstructor).filter (table.isApplicable strict args) = [] ↔
      ¬∃ m, table.Candidate owner name isConstructor args strict m := by
  simp only [List.eq_nil_iff_forall_not_mem, mem_filter_isApplicable, not_exists]

theorem resolve_eq_none_iff : table.resolve owner name args isConstructor = none ↔
    ¬∃ m, table.Candidate owner name isConstructor args false m := by
  rw [resolve_eq_or, Option.or_eq_none_iff, Option.or_eq_none_iff, preferred?_eq_none,
    preferred?_eq_none, filter_isApplicable_eq_nil, filter_isApplicable_eq_nil]
  refine ⟨fun none => none.2.2, fun noCandidate => ⟨?_, ?_, noCandidate⟩⟩
  · rw [List.find?_eq_none]
    intro m mem same
    rw [decide_eq_true_eq] at same
    exact noCandidate ⟨m, mem_visible_iff.mp mem, applicable_of_params_eq same⟩
  · rintro ⟨m, visible, applicable⟩
    exact noCandidate ⟨m, visible, applicable.loose⟩

theorem means_of_resolve (found : table.resolve owner name args isConstructor = some m) :
    table.Means owner name isConstructor args m := by
  rw [resolve_eq_or, Option.or_eq_some_iff, Option.or_eq_some_iff] at found
  rcases found with isExact | ⟨noExact, chosen⟩
  · have same : m.params = args := by simpa using List.find?_some isExact
    have mem := List.mem_of_find?_eq_some isExact
    have visible := mem_visible_iff.mp mem
    have best := mostSpecific_of_params_eq visible same
    refine ⟨visible, fun other isVisible sameToo => ?_, fun _ => ⟨best.1, fun _ => best⟩,
      fun noStrict => absurd ⟨m, best.1⟩ noStrict⟩
    exact eq_of_mem_keepNearest mem (mem_visible_iff.mpr isVisible) (same.trans sameToo.symm)
  · have exactly : ∀ other, table.IsVisible owner name isConstructor other →
        other.params = args → m = other := by
      intro other isVisible same
      have notExact := List.find?_eq_none.mp noExact other (mem_visible_iff.mpr isVisible)
      exact absurd (by simpa using same) notExact
    rcases chosen with strictly | ⟨noStrict, loosely⟩
    · have preferred := preferred_of_preferred? strictly
      exact ⟨preferred.1.1, exactly, fun _ => preferred, fun none => absurd ⟨m, preferred.1⟩ none⟩
    · rw [preferred?_eq_none, filter_isApplicable_eq_nil] at noStrict
      have preferred := preferred_of_preferred? loosely
      exact ⟨preferred.1.1, exactly, fun some => absurd some noStrict, fun _ => preferred⟩

/-- A call finds the member that it means, and none exactly if no visible member
takes the arguments. -/
theorem resolve_means (table : MemberTable) (owner : JType) (name : String) (args : List JType)
    (isConstructor : Bool) :
    (table.resolve owner name args isConstructor = none ↔
      ∀ m, table.IsVisible owner name isConstructor m → ¬table.Applicable false args m) ∧
    ∀ m, table.resolve owner name args isConstructor = some m →
      table.Means owner name isConstructor args m := by
  refine ⟨?_, fun m => means_of_resolve⟩
  rw [resolve_eq_none_iff]
  simp only [Candidate, not_exists, not_and]

end MemberTable

namespace Sample

/-- `Math.max` on two values of a type. -/
def maxOf (ty : JType) : Member where
  owner := .named "java.lang.Math"
  name := "max"
  kind := .method
  signature := ⟨[ty, ty], ty⟩
  throws := []
  access := .publicStatic
  ownerIsInterface := false

/-- `Math.max` of an `int` and a `long` is that on `long`, the most specific of
the two that take both without boxing. -/
theorem maxOf_long_means :
    MemberTable.javaLang.resolve (.named "java.lang.Math") "max" [.int, .long] false =
        some (maxOf .long) ∧
      MemberTable.javaLang.Means (.named "java.lang.Math") "max" false [.int, .long]
        (maxOf .long) ∧
      MemberTable.javaLang.resolve (.named "java.lang.Math") "max" [.int, .boolean] false = none ∧
      ¬MemberTable.javaLang.Applicable false [.int, .boolean] (maxOf .int) := by
  have found : MemberTable.javaLang.resolve (.named "java.lang.Math") "max" [.int, .long] false =
      some (maxOf .long) := by
    decide +kernel
  have none : MemberTable.javaLang.resolve (.named "java.lang.Math") "max" [.int, .boolean]
      false = none := by
    decide +kernel
  have visible : MemberTable.javaLang.IsVisible (.named "java.lang.Math") "max" false
      (maxOf .int) :=
    MemberTable.mem_visible_iff.mp (by decide +kernel)
  obtain ⟨-, means⟩ :=
    MemberTable.resolve_means .javaLang (.named "java.lang.Math") "max" [.int, .long] false
  obtain ⟨refused, -⟩ :=
    MemberTable.resolve_means .javaLang (.named "java.lang.Math") "max" [.int, .boolean] false
  exact ⟨found, means _ found, none, refused.mp none _ visible⟩

end Sample

end JvmAssembler
