import Mathlib
import JvmAssembler.Proofs.DeclarationOrder
import JvmAssembler.MemberTable.JavaLang

/-!
# Supertypes and subtyping

The walk through declared supertypes visits exactly the types that declared
edges lead to, whatever the hierarchy looks like: it may be cyclic and may
mention types that were never declared.  So one class is a subtype of another if
edges lead to it or it is the root class.

Main statement: subtyping is reflexive and transitive.  Arrays are below the root
class and two interfaces without an edge, so transitivity needs that nothing but
the root class is declared above these three.  They are so in the tables that
declarations start from, and only a declaration of one of the three can change
it.
-/

namespace JvmAssembler

/-- The types that declarations relate to each other. -/
def JType.isClass : JType → Bool
  | .cls _ | .self => true
  | _ => false

theorem JType.isReference_of_isClass {ty : JType} (isClass : ty.isClass = true) :
    ty.isReference = true := by
  cases ty <;> first | contradiction | rfl

namespace MemberTable

variable (table : MemberTable)

/-! ## Declared edges -/

/-- `sup` is declared as the superclass or as an interface of `sub`. -/
def Extends (sub sup : JType) : Prop :=
  sup ∈ table.parents sub

/-- Declared edges lead from `sub` to `sup`; to the type itself none is needed. -/
def Inherits : JType → JType → Prop :=
  Relation.ReflTransGen table.Extends

/-- The supertypes of visited types are visited or queued. -/
def Expanded (queue order : List JType) : Prop :=
  ∀ ty ∈ order, ∀ sup ∈ table.parents ty, sup ∈ order ∨ sup ∈ queue

variable {table} {queue order rest : List JType} {next sub middle sup ty : JType}

theorem Expanded.skip (expanded : table.Expanded (next :: rest) order) (known : next ∈ order) :
    table.Expanded rest order := by
  intro ty visited sup above
  rcases expanded ty visited sup above with done | queued
  · exact .inl done
  · rcases List.mem_cons.mp queued with rfl | later
    · exact .inl known
    · exact .inr later

theorem Expanded.visit (expanded : table.Expanded (next :: rest) order) :
    table.Expanded (rest ++ table.parents next) (order ++ [next]) := by
  intro ty visited sup above
  simp only [List.mem_append, List.mem_singleton] at visited ⊢
  rcases visited with visited | rfl
  · rcases expanded ty visited sup above with done | queued
    · exact .inl (.inl done)
    · rcases List.mem_cons.mp queued with rfl | later
      · exact .inl (.inr rfl)
      · exact .inr (.inl later)
  · exact .inr (.inr above)

/-- The walk keeps what it has visited and visits what is queued. -/
theorem mem_walk (listed : ty ∈ order ∨ ty ∈ queue) : ty ∈ table.walk queue order := by
  induction queue, order using walk.induct table with
  | case1 order =>
      rw [walk]
      simpa using listed
  | case2 order next rest known ih =>
      rw [walk, if_pos known]
      apply ih
      rcases listed with visited | queued
      · exact .inl visited
      · rcases List.mem_cons.mp queued with rfl | later
        · exact .inl known
        · exact .inr later
  | case3 order next rest fresh ih =>
      rw [walk, if_neg fresh]
      apply ih
      simp only [List.mem_append, List.mem_singleton]
      rcases listed with visited | queued
      · exact .inl (.inl visited)
      · rcases List.mem_cons.mp queued with rfl | later
        · exact .inl (.inr rfl)
        · exact .inr (.inl later)

/-- With a visited type the walk visits its supertypes. -/
theorem mem_walk_of_extends (expanded : table.Expanded queue order)
    (visited : sub ∈ table.walk queue order) (edge : table.Extends sub sup) :
    sup ∈ table.walk queue order := by
  induction queue, order using walk.induct table with
  | case1 order =>
      rw [walk] at visited ⊢
      simpa using expanded sub visited sup edge
  | case2 order next rest known ih =>
      rw [walk, if_pos known] at visited ⊢
      exact ih (expanded.skip known) visited
  | case3 order next rest fresh ih =>
      rw [walk, if_neg fresh] at visited ⊢
      exact ih expanded.visit visited

/-- The walk visits nothing but what edges lead to from the queue. -/
theorem of_mem_walk (visited : ty ∈ table.walk queue order) :
    ty ∈ order ∨ ∃ start ∈ queue, table.Inherits start ty := by
  induction queue, order using walk.induct table with
  | case1 order =>
      rw [walk] at visited
      exact .inl visited
  | case2 order next rest known ih =>
      rw [walk, if_pos known] at visited
      rcases ih visited with done | ⟨start, queued, leads⟩
      · exact .inl done
      · exact .inr ⟨start, List.mem_cons_of_mem next queued, leads⟩
  | case3 order next rest fresh ih =>
      rw [walk, if_neg fresh] at visited
      rcases ih visited with done | ⟨start, queued, leads⟩
      · rcases List.mem_append.mp done with before | isNext
        · exact .inl before
        · obtain rfl := List.mem_singleton.mp isNext
          exact .inr ⟨ty, List.mem_cons_self, .refl⟩
      · rcases List.mem_append.mp queued with later | above
        · exact .inr ⟨start, List.mem_cons_of_mem next later, leads⟩
        · exact .inr ⟨next, List.mem_cons_self, .head above leads⟩

/-- From one type the walk visits exactly what edges lead to. -/
theorem mem_walk_singleton : sup ∈ table.walk [sub] [] ↔ table.Inherits sub sup := by
  constructor
  · intro visited
    simpa using of_mem_walk visited
  · intro leads
    induction leads with
    | refl => exact mem_walk (.inr List.mem_cons_self)
    | tail _ edge visited =>
        exact mem_walk_of_extends (fun _ none => absurd none List.not_mem_nil) visited edge

/-- A type is listed among the supertypes of another if edges lead to it, or if it
is the root class and the other is a reference type. -/
theorem mem_lineage : sup ∈ table.lineage sub ↔
    table.Inherits sub sup ∨ sub.isReference = true ∧ sup = .object := by
  unfold lineage
  by_cases added : (sub.isReference && !(table.walk [sub] []).contains .object) = true
  · simp only [added, if_true, List.mem_append, List.mem_singleton, mem_walk_singleton]
    rw [Bool.and_eq_true] at added
    simp [added.1]
  · simp only [added, if_false, mem_walk_singleton, Bool.false_eq_true]
    refine ⟨.inl, ?_⟩
    rintro (leads | ⟨reference, rfl⟩)
    · exact leads
    · simpa [reference, mem_walk_singleton] using added

/-! ## Subtyping -/

/-- The reference types that arrays are below. -/
def arrayParents : List JType :=
  [.object, .cls "java/lang/Cloneable", .cls "java/io/Serializable"]

/-- The rules of subtyping. -/
inductive Below (table : MemberTable) : JType → JType → Prop where
  | refl (ty : JType) : Below table ty ty
  | null {sup : JType} (reference : sup.isReference = true) : Below table .null sup
  | array {elem elem' : JType} (notPrimitive : elem.isPrimitive = false)
      (notPrimitive' : elem'.isPrimitive = false) (elems : Below table elem elem') :
      Below table (.array elem) (.array elem')
  | arrayParent (elem : JType) {sup : JType} (parent : sup ∈ arrayParents) :
      Below table (.array elem) sup
  | lineage {sub sup : JType} (isClass : sub.isClass = true) (isClass' : sup.isClass = true)
      (listed : sup ∈ table.lineage sub) : Below table sub sup

theorem isSubtype_self (table : MemberTable) (ty : JType) : table.isSubtype ty ty = true := by
  unfold isSubtype
  simp

theorem Below.of_isSubtype (holds : table.isSubtype sub sup = true) : table.Below sub sup := by
  by_cases same : sub = sup
  · exact same ▸ .refl _
  induction sub generalizing sup with
  | array elem ih =>
      cases sup with
      | array elem' =>
          have differs : elem ≠ elem' := by simpa using same
          obtain ⟨⟨notPrimitive, notPrimitive'⟩, elems⟩ :
              (elem.isPrimitive = false ∧ elem'.isPrimitive = false) ∧
                table.isSubtype elem elem' = true := by
            simpa [MemberTable.isSubtype, differs] using holds
          exact .array notPrimitive notPrimitive' (ih elems differs)
      | cls name =>
          have parent : JType.cls name ∈ arrayParents := by
            simpa [MemberTable.isSubtype, arrayParents, JType.object, or_assoc] using holds
          exact .arrayParent elem parent
      | _ => simp [MemberTable.isSubtype] at holds
  | null => exact .null (by simpa [MemberTable.isSubtype, same] using holds)
  | cls name =>
      cases sup with
      | cls name' | self =>
          exact .lineage rfl rfl (by simpa [MemberTable.isSubtype, same] using holds)
      | _ => simp [MemberTable.isSubtype] at holds
  | self =>
      cases sup with
      | cls name => exact .lineage rfl rfl (by simpa [MemberTable.isSubtype] using holds)
      | self => contradiction
      | _ => simp [MemberTable.isSubtype] at holds
  | primitive p | void => cases sup <;> simp_all [MemberTable.isSubtype]

theorem Below.isSubtype (below : table.Below sub sup) : table.isSubtype sub sup = true := by
  induction below with
  | refl ty => exact table.isSubtype_self ty
  | @null sup reference =>
      unfold MemberTable.isSubtype
      simp [reference]
  | array notPrimitive notPrimitive' _ ih =>
      simp [MemberTable.isSubtype, notPrimitive, notPrimitive', ih]
  | arrayParent elem parent =>
      simp only [arrayParents, List.mem_cons, List.not_mem_nil, or_false] at parent
      rcases parent with rfl | rfl | rfl <;> simp [MemberTable.isSubtype, JType.object]
  | @lineage sub sup isClass isClass' listed =>
      cases sub <;> cases sup <;> first | contradiction | simp [MemberTable.isSubtype, listed]

theorem isClass_of_mem_arrayParents (parent : ty ∈ arrayParents) : ty.isClass = true := by
  simp only [arrayParents, List.mem_cons, List.not_mem_nil, or_false] at parent
  rcases parent with rfl | rfl | rfl <;> rfl

/-- What is above a reference type is a reference type. -/
theorem Below.isReference (below : table.Below sub sup) (reference : sub.isReference = true) :
    sup.isReference = true := by
  cases below with
  | refl => exact reference
  | null reference => exact reference
  | array => rfl
  | arrayParent _ parent => exact JType.isReference_of_isClass (isClass_of_mem_arrayParents parent)
  | lineage _ isClass => exact JType.isReference_of_isClass isClass

/-! ## Transitivity -/

/-- Nothing but the root class is declared above the types that arrays are
below. -/
def Rooted (table : MemberTable) : Prop :=
  ∀ ty ∈ arrayParents, ∀ sup, table.Extends ty sup → sup = .object

namespace Rooted

variable (rooted : table.Rooted)

include rooted

theorem of_inherits (parent : ty ∈ arrayParents) (leads : table.Inherits ty sup) :
    sup = ty ∨ sup = .object := by
  induction leads with
  | refl => exact .inl rfl
  | tail _ edge ih =>
      rcases ih with rfl | rfl
      · exact .inr (rooted _ parent _ edge)
      · exact .inr (rooted _ List.mem_cons_self _ edge)

/-- The types that arrays are below are closed under what is above them. -/
theorem mem_arrayParents (parent : ty ∈ arrayParents) (listed : sup ∈ table.lineage ty) :
    sup ∈ arrayParents := by
  rcases mem_lineage.mp listed with leads | ⟨-, rfl⟩
  · rcases rooted.of_inherits parent leads with rfl | rfl
    · exact parent
    · exact List.mem_cons_self
  · exact List.mem_cons_self

theorem mem_lineage_trans (isClass : sub.isClass = true) (first : middle ∈ table.lineage sub)
    (second : sup ∈ table.lineage middle) : sup ∈ table.lineage sub := by
  have reference := JType.isReference_of_isClass isClass
  rw [mem_lineage] at first second ⊢
  rcases second with leads | ⟨-, rfl⟩
  · rcases first with before | ⟨-, rfl⟩
    · exact .inl (before.trans leads)
    · -- The root class is above `sub` without an edge; nothing else is above it.
      have isObject : sup = .object := by simpa using rooted.of_inherits List.mem_cons_self leads
      exact .inr ⟨reference, isObject⟩
  · exact .inr ⟨reference, rfl⟩

theorem below_trans (first : table.Below sub middle) (second : table.Below middle sup) :
    table.Below sub sup := by
  induction first generalizing sup with
  | refl => exact second
  | null reference => exact .null (second.isReference reference)
  | @array elem elem' notPrimitive notPrimitive' elems ih =>
      cases second with
      | refl => exact .array notPrimitive notPrimitive' elems
      | array _ notPrimitive'' elems' => exact .array notPrimitive notPrimitive'' (ih elems')
      | arrayParent _ parent => exact .arrayParent elem parent
      | lineage isClass => contradiction
  | arrayParent elem parent =>
      cases second with
      | refl => exact .arrayParent elem parent
      | lineage _ _ listed => exact .arrayParent elem (rooted.mem_arrayParents parent listed)
      | null | array | arrayParent => simp [arrayParents, JType.object] at parent
  | lineage isClass isClass' listed =>
      cases second with
      | refl => exact .lineage isClass isClass' listed
      | lineage _ isClass'' listed' =>
          exact .lineage isClass isClass'' (rooted.mem_lineage_trans isClass listed listed')
      | null | array | arrayParent => contradiction

end Rooted

/-! ## Declared tables -/

/-- A table that declarations lead to from `base`, none of which is a declaration
of a type that arrays are below. -/
inductive Extended (base : MemberTable) : MemberTable → Prop where
  | base : Extended base base
  | declare {table : MemberTable} (extended : Extended base table) (declaration : Declaration)
      (apart : ∀ declared ∈ declaration.type?, declared.1 ∉ arrayParents) :
      Extended base (table.declare declaration)
  | declareSelf {table : MemberTable} (extended : Extended base table)
      (package superclass : String) (interfaces : List String) :
      Extended base (table.declareSelf package superclass interfaces)

theorem parents_declareType_of_ne (table : MemberTable) (info : ClassInfo) (differs : ty ≠ next) :
    (table.declareType next info).parents ty = table.parents ty := by
  simp [parents, info?, declareType, List.lookup_cons, beq_false_of_ne differs]

theorem Rooted.declareType (rooted : table.Rooted) (apart : next ∉ arrayParents)
    (info : ClassInfo) : (table.declareType next info).Rooted := by
  intro ty parent sup edge
  have differs : ty ≠ next := fun same => apart (same ▸ parent)
  rw [Extends, parents_declareType_of_ne table info differs] at edge
  exact rooted ty parent sup edge

theorem Rooted.declare (rooted : table.Rooted) {declaration : Declaration}
    (apart : ∀ declared ∈ declaration.type?, declared.1 ∉ arrayParents) :
    (table.declare declaration).Rooted := by
  cases declaration with
  | cls name superclass interfaces => exact rooted.declareType (apart _ rfl) _
  | interface name extended => exact rooted.declareType (apart _ rfl) _
  | field | method | constructor => exact rooted

theorem Rooted.extended {base : MemberTable} (rooted : base.Rooted)
    (extended : base.Extended table) : table.Rooted := by
  induction extended with
  | base => exact rooted
  | declare _ declaration apart ih => exact ih.declare apart
  | declareSelf _ package superclass interfaces ih =>
      have apart : JType.self ∉ arrayParents := by decide
      exact ih.declareType apart _

theorem rooted_new : MemberTable.new.Rooted := by
  unfold Rooted Extends
  decide

theorem rooted_javaLang : MemberTable.javaLang.Rooted := by
  unfold Rooted Extends
  decide +kernel

/-- Subtyping is reflexive and transitive in every table that is declared from the
root class or from the standard classes: on all types, in cyclic hierarchies and
for classes that are not declared. -/
theorem isSubtype_preorder
    (declared : MemberTable.new.Extended table ∨ MemberTable.javaLang.Extended table) :
    (∀ ty, table.isSubtype ty ty = true) ∧
      ∀ sub middle sup, table.isSubtype sub middle = true → table.isSubtype middle sup = true →
        table.isSubtype sub sup = true := by
  have rooted : table.Rooted := by
    rcases declared with extended | extended
    · exact rooted_new.extended extended
    · exact rooted_javaLang.extended extended
  refine ⟨table.isSubtype_self, fun sub middle sup first second => ?_⟩
  exact (rooted.below_trans (.of_isSubtype first) (.of_isSubtype second)).isSubtype

end MemberTable

namespace Sample

/-- `class Head extends Tail`, `class Tail extends Head implements Link` and a
class under construction that extends `Head`; `Link` is not declared. -/
def cyclicTable : MemberTable :=
  MemberTable.javaLang
    |>.declare (.cls "demo.Head" "demo.Tail" [])
    |>.declare (.cls "demo.Tail" "demo.Head" ["demo.Link"])
    |>.declareSelf "demo" "demo.Head" []

theorem cyclicTable_extended : MemberTable.javaLang.Extended cyclicTable :=
  .declareSelf
    (.declare (.declare .base (.cls "demo.Head" "demo.Tail" []) (by decide))
      (.cls "demo.Tail" "demo.Head" ["demo.Link"]) (by decide))
    "demo" "demo.Head" []

/-- Arrays of arrays of the class under construction go up through the cycle. -/
theorem cyclicTable_isSubtype :
    MemberTable.javaLang.Extended cyclicTable ∧
      cyclicTable.isSubtype (.array (.array .self)) (.array (.array (.named "demo.Tail"))) = true ∧
      cyclicTable.isSubtype (.array (.array (.named "demo.Tail")))
        (.array (.array (.named "demo.Link"))) = true ∧
      cyclicTable.isSubtype (.array (.array .self)) (.array (.array (.named "demo.Link"))) = true := by
  have first : cyclicTable.isSubtype (.array (.array .self))
      (.array (.array (.named "demo.Tail"))) = true := by
    decide +kernel
  have second : cyclicTable.isSubtype (.array (.array (.named "demo.Tail")))
      (.array (.array (.named "demo.Link"))) = true := by
    decide +kernel
  obtain ⟨-, transitive⟩ := MemberTable.isSubtype_preorder (.inr cyclicTable_extended)
  exact ⟨cyclicTable_extended, first, second, transitive _ _ _ first second⟩

end Sample

end JvmAssembler
