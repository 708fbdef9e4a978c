import Mathlib
import JvmAssembler.Proofs.Negation

/-!
# Building conditions

Conditions are built from constants and tests by joining and negating.  Joining
merges nested conjunctions and nested disjunctions into one node, and negating
rewrites the whole tree.

A boolean expression records how a condition was built.  Main statement: the tree
has the value of the expression whenever tests and negated tests have opposite
values, it has the leaves of the expression from left to right, and it is flat: no
node has a part of its own kind, and every node has at least two parts.

Each builder has one lemma for each of the three readings of a tree.  Those for
disjunctions follow from those for conjunctions, since by De Morgan's laws, which
hold of the trees themselves, a disjunction is a negated conjunction.
-/

namespace JvmAssembler

namespace Cond

/-- The conditions that test a value. -/
def isTest : Cond → Bool
  | .truth _ | .falsity _ | .isNull _ | .nonNull _ | .compare .. => true
  | .const _ | .conj _ | .disj _ => false

def isConj : Cond → Bool
  | .conj _ => true
  | _ => false

def isDisj : Cond → Bool
  | .disj _ => true
  | _ => false

/-- A test of a value. -/
abbrev Test := {c : Cond // c.isTest = true}

theorem isTest_negate (test : Test) : test.1.negate.isTest = true := by
  obtain ⟨c, isTest⟩ := test
  cases c <;> first | contradiction | rfl

/-- The negated form of a test. -/
def Test.negate (test : Test) : Test :=
  ⟨test.1.negate, isTest_negate test⟩

@[simp]
theorem Test.coe_negate (test : Test) : test.negate.1 = test.1.negate :=
  rfl

/-- Tests and their negated forms have opposite values. -/
def Consistent (valuation : Test → Bool) : Prop :=
  ∀ test : Test, valuation test.negate = !valuation test

/-! ## Reading trees -/

section Readings

variable (valuation : Test → Bool)

mutual

/-- The value of a condition, given those of its tests. -/
def holds : Cond → Bool
  | .const value => value
  | .truth value => valuation ⟨.truth value, rfl⟩
  | .falsity value => valuation ⟨.falsity value, rfl⟩
  | .isNull value => valuation ⟨.isNull value, rfl⟩
  | .nonNull value => valuation ⟨.nonNull value, rfl⟩
  | .compare op left right nan => valuation ⟨.compare op left right nan, rfl⟩
  | .conj parts => allHold parts
  | .disj parts => anyHolds parts

def allHold : List Cond → Bool
  | [] => true
  | part :: rest => part.holds && allHold rest

def anyHolds : List Cond → Bool
  | [] => false
  | part :: rest => part.holds || anyHolds rest

end

end Readings

mutual

/-- The constants and tests of a condition, from left to right. -/
def leaves : Cond → List Cond
  | .conj parts | .disj parts => leavesIn parts
  | leaf => [leaf]

def leavesIn : List Cond → List Cond
  | [] => []
  | part :: rest => part.leaves ++ leavesIn rest

end

mutual

/-- No conjunction is part of a conjunction and no disjunction of a disjunction,
and each has at least two parts. -/
def isFlat : Cond → Bool
  | .conj parts => 2 ≤ parts.length && parts.all (!·.isConj) && allFlat parts
  | .disj parts => 2 ≤ parts.length && parts.all (!·.isDisj) && allFlat parts
  | _ => true

def allFlat : List Cond → Bool
  | [] => true
  | part :: rest => part.isFlat && allFlat rest

end

variable {valuation : Test → Bool} {a b c : Cond} {parts : List Cond}

@[simp]
theorem holds_const (value : Bool) : (const value).holds valuation = value := by
  rw [holds]

@[simp]
theorem holds_conj : (conj parts).holds valuation = parts.all (holds valuation) := by
  rw [holds]
  induction parts with
  | nil => rfl
  | cons part rest ih => rw [allHold, List.all_cons, ih]

@[simp]
theorem holds_disj : (disj parts).holds valuation = parts.any (holds valuation) := by
  rw [holds]
  induction parts with
  | nil => rfl
  | cons part rest ih => rw [anyHolds, List.any_cons, ih]

@[simp]
theorem leavesIn_eq : leavesIn parts = parts.flatMap leaves := by
  induction parts with
  | nil => rfl
  | cons part rest ih => rw [leavesIn, List.flatMap_cons, ih]

theorem allFlat_iff : allFlat parts = true ↔ ∀ part ∈ parts, part.isFlat = true := by
  induction parts with
  | nil => simp [allFlat]
  | cons part rest ih => simp [allFlat, ih]

theorem isFlat_conj : (conj parts).isFlat = true ↔
    2 ≤ parts.length ∧ ∀ part ∈ parts, part.isConj = false ∧ part.isFlat = true := by
  simp [isFlat, allFlat_iff, and_assoc, forall_and]

theorem isFlat_disj : (disj parts).isFlat = true ↔
    2 ≤ parts.length ∧ ∀ part ∈ parts, part.isDisj = false ∧ part.isFlat = true := by
  simp [isFlat, allFlat_iff, and_assoc, forall_and]

theorem holds_test (test : Test) : test.1.holds valuation = valuation test := by
  obtain ⟨c, isTest⟩ := test
  cases c <;> first | contradiction | rw [holds]

@[simp]
theorem leaves_const (value : Bool) : (const value).leaves = [const value] := by
  simp [leaves]

theorem leaves_test (test : Test) : test.1.leaves = [test.1] := by
  obtain ⟨c, isTest⟩ := test
  cases c <;> first | contradiction | simp [leaves]

theorem isFlat_test (test : Test) : test.1.isFlat = true := by
  obtain ⟨c, isTest⟩ := test
  cases c <;> first | contradiction | simp [isFlat]

/-- Induction over a condition as a tree of constants and tests. -/
@[elab_as_elim]
theorem tree_induction {motive : Cond → Prop} (const : ∀ value, motive (.const value))
    (test : ∀ test : Test, motive test.1)
    (conj : ∀ parts : List Cond, (∀ part ∈ parts, motive part) → motive (.conj parts))
    (disj : ∀ parts : List Cond, (∀ part ∈ parts, motive part) → motive (.disj parts))
    (c : Cond) : motive c := by
  cases c with
  | const value => exact const value
  | truth value => exact test ⟨.truth value, rfl⟩
  | falsity value => exact test ⟨.falsity value, rfl⟩
  | isNull value => exact test ⟨.isNull value, rfl⟩
  | nonNull value => exact test ⟨.nonNull value, rfl⟩
  | compare op left right nan => exact test ⟨.compare op left right nan, rfl⟩
  | conj parts => exact conj parts fun part _ => tree_induction const test conj disj part
  | disj parts => exact disj parts fun part _ => tree_induction const test conj disj part
termination_by sizeOf c

/-! ## Negating -/

theorem negateAll_eq_map : negateAll parts = parts.map negate := by
  induction parts with
  | nil => rfl
  | cons part rest ih => rw [negateAll, List.map_cons, ih]

@[simp]
theorem negate_conj : (conj parts).negate = disj (parts.map negate) := by
  rw [negate, negateAll_eq_map]

@[simp]
theorem negate_disj : (disj parts).negate = conj (parts.map negate) := by
  rw [negate, negateAll_eq_map]

theorem map_negate_map_negate (parts : List Cond) : (parts.map negate).map negate = parts := by
  rw [← negateAll_eq_map, ← negateAll_eq_map, negateAll_negateAll]

theorem isDisj_negate (c : Cond) : c.negate.isDisj = c.isConj := by
  cases c <;> rfl

theorem isConj_negate (c : Cond) : c.negate.isConj = c.isDisj := by
  cases c <;> rfl

theorem holds_negate (consistent : Consistent valuation) (c : Cond) :
    c.negate.holds valuation = !c.holds valuation := by
  induction c using tree_induction with
  | const value => simp [negate]
  | test test => rw [← test.coe_negate, holds_test, holds_test, consistent]
  | conj parts ih =>
      rw [negate_conj, holds_disj, holds_conj]
      grind
  | disj parts ih =>
      rw [negate_disj, holds_conj, holds_disj]
      grind

theorem leaves_negate (c : Cond) : c.negate.leaves = c.leaves.map negate := by
  induction c using tree_induction with
  | const value => simp [negate, leaves]
  | test test => rw [← test.coe_negate, leaves_test, leaves_test, List.map_singleton, test.coe_negate]
  | conj parts ih | disj parts ih =>
      simp only [negate_conj, negate_disj, leaves, leavesIn_eq, List.flatMap_map, List.map_flatMap]
      exact List.flatMap_congr ih

theorem isFlat_negate (flat : c.isFlat = true) : c.negate.isFlat = true := by
  induction c using tree_induction with
  | const value => simp [negate, isFlat]
  | test test => exact isFlat_test test.negate
  | conj parts ih =>
      obtain ⟨several, inner⟩ := isFlat_conj.mp flat
      rw [negate_conj, isFlat_disj, List.length_map, List.forall_mem_map]
      refine ⟨several, fun part mem => ⟨?_, ih part mem (inner part mem).2⟩⟩
      rw [isDisj_negate, (inner part mem).1]
  | disj parts ih =>
      obtain ⟨several, inner⟩ := isFlat_disj.mp flat
      rw [negate_disj, isFlat_conj, List.length_map, List.forall_mem_map]
      refine ⟨several, fun part mem => ⟨?_, ih part mem (inner part mem).2⟩⟩
      rw [isConj_negate, (inner part mem).1]

/-! ## Joining -/

theorem all_holds_conjuncts (c : Cond) :
    c.conjuncts.all (holds valuation) = c.holds valuation := by
  cases c <;> simp [conjuncts]

theorem flatMap_leaves_conjuncts (c : Cond) : c.conjuncts.flatMap leaves = c.leaves := by
  cases c <;> simp [conjuncts, leaves]

theorem length_conjuncts_pos (flat : c.isFlat = true) : 0 < c.conjuncts.length := by
  cases c with
  | conj parts => exact Nat.lt_of_lt_of_le Nat.two_pos (isFlat_conj.mp flat).1
  | _ => exact Nat.one_pos

theorem isFlat_conjuncts (flat : c.isFlat = true) :
    ∀ part ∈ c.conjuncts, part.isConj = false ∧ part.isFlat = true := by
  cases c with
  | conj parts => exact (isFlat_conj.mp flat).2
  | _ => simpa [conjuncts, isConj] using flat

@[simp]
theorem holds_and (a b : Cond) :
    (a.and b).holds valuation = (a.holds valuation && b.holds valuation) := by
  rw [and, holds_conj, List.all_append, all_holds_conjuncts, all_holds_conjuncts]

@[simp]
theorem leaves_and (a b : Cond) : (a.and b).leaves = a.leaves ++ b.leaves := by
  rw [and, leaves, leavesIn_eq, List.flatMap_append, flatMap_leaves_conjuncts,
    flatMap_leaves_conjuncts]

theorem isFlat_and (flat : a.isFlat = true) (flat' : b.isFlat = true) :
    (a.and b).isFlat = true := by
  have several := length_conjuncts_pos flat
  have several' := length_conjuncts_pos flat'
  rw [and, isFlat_conj, List.length_append, List.forall_mem_append]
  exact ⟨by omega, isFlat_conjuncts flat, isFlat_conjuncts flat'⟩

theorem holds_all (parts : List Cond) :
    (all parts).holds valuation = parts.all (holds valuation) := by
  cases parts with
  | nil => simp [all]
  | cons first rest =>
      rw [all]
      induction rest generalizing first with
      | nil => simp
      | cons second rest ih =>
          -- The first two, joined, take the place of the first.
          rw [List.foldl_cons, ih]
          simp [Bool.and_assoc]

theorem leaves_all_cons (first : Cond) (rest : List Cond) :
    (all (first :: rest)).leaves = (first :: rest).flatMap leaves := by
  rw [all]
  induction rest generalizing first with
  | nil => simp
  | cons second rest ih =>
      rw [List.foldl_cons, ih]
      simp

theorem isFlat_all (flat : ∀ part ∈ parts, part.isFlat = true) : (all parts).isFlat = true := by
  cases parts with
  | nil => simp [all, isFlat]
  | cons first rest =>
      rw [all]
      induction rest generalizing first with
      | nil => exact flat first List.mem_cons_self
      | cons second rest ih =>
          rw [List.forall_mem_cons, List.forall_mem_cons] at flat
          exact ih _ (List.forall_mem_cons.mpr ⟨isFlat_and flat.1 flat.2.1, flat.2.2⟩)

/-! ## De Morgan's laws -/

theorem map_negate_conjuncts_negate (c : Cond) : c.negate.conjuncts.map negate = c.disjuncts := by
  cases c with
  | disj parts => rw [negate_disj, conjuncts, disjuncts, map_negate_map_negate]
  | _ => simp [conjuncts, disjuncts, negate, negateAll_negateAll]

theorem or_eq_negate (a b : Cond) : a.or b = (a.negate.and b.negate).negate := by
  rw [and, negate_conj, List.map_append, map_negate_conjuncts_negate, map_negate_conjuncts_negate,
    or]

theorem any_eq_negate (parts : List Cond) : any parts = (all (parts.map negate)).negate := by
  cases parts with
  | nil => rfl
  | cons first rest =>
      -- Negating every partial conjunction gives the partial disjunctions.
      rw [any, List.map_cons, all, List.foldl_map, ← List.foldl_hom negate, negate_negate]
      intro c part
      rw [or_eq_negate, negate_negate]

theorem holds_or (consistent : Consistent valuation) (a b : Cond) :
    (a.or b).holds valuation = (a.holds valuation || b.holds valuation) := by
  rw [or_eq_negate, holds_negate consistent, holds_and, Bool.not_and, ← holds_negate consistent,
    ← holds_negate consistent, negate_negate, negate_negate]

theorem leaves_or (a b : Cond) : (a.or b).leaves = a.leaves ++ b.leaves := by
  rw [or_eq_negate, leaves_negate, leaves_and, leaves_negate, leaves_negate, List.map_append,
    map_negate_map_negate, map_negate_map_negate]

theorem isFlat_or (flat : a.isFlat = true) (flat' : b.isFlat = true) : (a.or b).isFlat = true := by
  rw [or_eq_negate]
  exact isFlat_negate (isFlat_and (isFlat_negate flat) (isFlat_negate flat'))

theorem holds_any (consistent : Consistent valuation) (parts : List Cond) :
    (any parts).holds valuation = parts.any (holds valuation) := by
  rw [any_eq_negate, holds_negate consistent, holds_all, List.all_map, List.not_all_eq_any_not]
  simp [holds_negate consistent]

theorem leaves_any_cons (first : Cond) (rest : List Cond) :
    (any (first :: rest)).leaves = (first :: rest).flatMap leaves := by
  rw [any_eq_negate, leaves_negate, List.map_cons, leaves_all_cons, ← List.map_cons,
    List.flatMap_map, List.map_flatMap]
  simp only [leaves_negate, map_negate_map_negate]

theorem isFlat_any (flat : ∀ part ∈ parts, part.isFlat = true) : (any parts).isFlat = true := by
  rw [any_eq_negate]
  exact isFlat_negate
    (isFlat_all (List.forall_mem_map.mpr fun part mem => isFlat_negate (flat part mem)))

end Cond

/-! ## Boolean expressions -/

/-- How a condition is built from constants and tests. -/
inductive BoolExpr where
  | const (value : Bool)
  | test (test : Cond.Test)
  | and (left right : BoolExpr)
  | or (left right : BoolExpr)
  | all (parts : List BoolExpr)
  | any (parts : List BoolExpr)
  | not (operand : BoolExpr)

namespace BoolExpr

mutual

/-- The condition that is built. -/
def toCond : BoolExpr → Cond
  | .const value => .const value
  | .test t => t.1
  | .and left right => left.toCond.and right.toCond
  | .or left right => left.toCond.or right.toCond
  | .all parts => .all (toConds parts)
  | .any parts => .any (toConds parts)
  | .not operand => operand.toCond.negate

def toConds : List BoolExpr → List Cond
  | [] => []
  | part :: rest => part.toCond :: toConds rest

end

section Value

variable (valuation : Cond.Test → Bool)

mutual

/-- The value of an expression, given those of its tests. -/
def holds : BoolExpr → Bool
  | .const value => value
  | .test t => valuation t
  | .and left right => left.holds && right.holds
  | .or left right => left.holds || right.holds
  | .all parts => allHold parts
  | .any parts => anyHolds parts
  | .not operand => !operand.holds

def allHold : List BoolExpr → Bool
  | [] => true
  | part :: rest => part.holds && allHold rest

def anyHolds : List BoolExpr → Bool
  | [] => false
  | part :: rest => part.holds || anyHolds rest

end

end Value

mutual

/-- The constants and tests of an expression, from left to right, in negated form
under an odd number of negations.  An `all` or `any` of nothing is the constant
that it means. -/
def leaves : BoolExpr → List Cond
  | .const value => [.const value]
  | .test t => [t.1]
  | .and left right | .or left right => left.leaves ++ right.leaves
  | .all [] => [.const true]
  | .any [] => [.const false]
  | .all (first :: rest) | .any (first :: rest) => first.leaves ++ leavesIn rest
  | .not operand => operand.leaves.map Cond.negate

def leavesIn : List BoolExpr → List Cond
  | [] => []
  | part :: rest => part.leaves ++ leavesIn rest

end

theorem toConds_eq_map (parts : List BoolExpr) : toConds parts = parts.map toCond := by
  induction parts with
  | nil => rfl
  | cons part rest ih => rw [toConds, List.map_cons, ih]

theorem leavesIn_eq_flatMap (parts : List BoolExpr) : leavesIn parts = parts.flatMap leaves := by
  induction parts with
  | nil => rfl
  | cons part rest ih => rw [leavesIn, List.flatMap_cons, ih]

/-- Induction over an expression. -/
@[elab_as_elim]
theorem tree_induction {motive : BoolExpr → Prop} (const : ∀ value, motive (.const value))
    (test : ∀ test, motive (.test test))
    (and : ∀ left right, motive left → motive right → motive (.and left right))
    (or : ∀ left right, motive left → motive right → motive (.or left right))
    (all : ∀ parts : List BoolExpr, (∀ part ∈ parts, motive part) → motive (.all parts))
    (any : ∀ parts : List BoolExpr, (∀ part ∈ parts, motive part) → motive (.any parts))
    (not : ∀ operand, motive operand → motive (.not operand)) (e : BoolExpr) : motive e := by
  cases e with
  | const value => exact const value
  | test t => exact test t
  | and left right =>
      exact and left right (left.tree_induction const test and or all any not)
        (right.tree_induction const test and or all any not)
  | or left right =>
      exact or left right (left.tree_induction const test and or all any not)
        (right.tree_induction const test and or all any not)
  | all parts => exact all parts fun part _ => part.tree_induction const test and or all any not
  | any parts => exact any parts fun part _ => part.tree_induction const test and or all any not
  | not operand => exact not operand (operand.tree_induction const test and or all any not)
termination_by sizeOf e

variable {valuation : Cond.Test → Bool}

theorem holds_all_eq (parts : List BoolExpr) :
    (all parts).holds valuation = parts.all (holds valuation) := by
  rw [holds]
  induction parts with
  | nil => rfl
  | cons part rest ih => rw [allHold, List.all_cons, ih]

theorem holds_any_eq (parts : List BoolExpr) :
    (any parts).holds valuation = parts.any (holds valuation) := by
  rw [holds]
  induction parts with
  | nil => rfl
  | cons part rest ih => rw [anyHolds, List.any_cons, ih]

theorem holds_toCond (consistent : Cond.Consistent valuation) (e : BoolExpr) :
    e.toCond.holds valuation = e.holds valuation := by
  induction e using BoolExpr.tree_induction with
  | const value => rw [toCond, Cond.holds_const, holds]
  | test test => rw [toCond, Cond.holds_test, holds]
  | and left right ih ih' => rw [toCond, Cond.holds_and, ih, ih', holds]
  | or left right ih ih' => rw [toCond, Cond.holds_or consistent, ih, ih', holds]
  | all parts ih =>
      rw [toCond, Cond.holds_all, toConds_eq_map, holds_all_eq]
      grind
  | any parts ih =>
      rw [toCond, Cond.holds_any consistent, toConds_eq_map, holds_any_eq]
      grind
  | not operand ih => rw [toCond, Cond.holds_negate consistent, ih, holds]

theorem flatMap_leaves_toConds {parts : List BoolExpr}
    (same : ∀ part ∈ parts, part.toCond.leaves = part.leaves) :
    (toConds parts).flatMap Cond.leaves = leavesIn parts := by
  rw [toConds_eq_map, List.flatMap_map, leavesIn_eq_flatMap]
  exact List.flatMap_congr same

theorem leaves_toCond (e : BoolExpr) : e.toCond.leaves = e.leaves := by
  induction e using BoolExpr.tree_induction with
  | const value => rw [toCond, Cond.leaves_const, leaves]
  | test t => rw [toCond, Cond.leaves_test, leaves]
  | and left right ih ih' => rw [toCond, Cond.leaves_and, ih, ih', leaves]
  | or left right ih ih' => rw [toCond, Cond.leaves_or, ih, ih', leaves]
  | all parts ih =>
      cases parts with
      | nil => rw [toCond, toConds, Cond.all, Cond.leaves_const, leaves]
      | cons first rest => exact (Cond.leaves_all_cons ..).trans (flatMap_leaves_toConds ih)
  | any parts ih =>
      cases parts with
      | nil => rw [toCond, toConds, Cond.any, Cond.leaves_const, leaves]
      | cons first rest => exact (Cond.leaves_any_cons ..).trans (flatMap_leaves_toConds ih)
  | not operand ih => rw [toCond, Cond.leaves_negate, ih, leaves]

theorem isFlat_toCond (e : BoolExpr) : e.toCond.isFlat = true := by
  induction e using BoolExpr.tree_induction with
  | const value => simp [toCond, Cond.isFlat]
  | test test => exact Cond.isFlat_test test
  | and left right ih ih' => exact Cond.isFlat_and ih ih'
  | or left right ih ih' => exact Cond.isFlat_or ih ih'
  | all parts ih =>
      rw [toCond, toConds_eq_map]
      exact Cond.isFlat_all (List.forall_mem_map.mpr ih)
  | any parts ih =>
      rw [toCond, toConds_eq_map]
      exact Cond.isFlat_any (List.forall_mem_map.mpr ih)
  | not operand ih => exact Cond.isFlat_negate ih

/-- Building a condition keeps its meaning and its leaves, and the tree is flat,
however joining and negating follow each other. -/
theorem toCond_preserves (consistent : Cond.Consistent valuation) (e : BoolExpr) :
    e.toCond.holds valuation = e.holds valuation ∧
      e.toCond.leaves = e.leaves ∧
      e.toCond.isFlat = true :=
  ⟨holds_toCond consistent e, leaves_toCond e, isFlat_toCond e⟩

end BoolExpr

namespace Sample

open Fragment

/-- `!(flag && (!(done || x < 1) && name != null) && true)`; the last part is a
conjunction of nothing. -/
def negatedGuard : BoolExpr :=
  .not <| .all
    [.test ⟨.truth (loadNamed "flag"), rfl⟩,
      .and
        (.not (.or (.test ⟨.truth (loadNamed "done"), rfl⟩)
          (.test ⟨.relation .lt (loadNamed "x") (int 1), rfl⟩)))
        (.test ⟨.nonNull (loadNamed "name"), rfl⟩),
      .all []]

def isDone : Fragment → Bool
  | [.load (.named name)] => name = "done"
  | _ => false

/-- Variables other than `done` are true, references are not `null`, and
comparisons have an operand that is not a number. -/
def exceptDone : Cond.Test → Bool
  | ⟨.truth value, _⟩ => !isDone value
  | ⟨.falsity value, _⟩ => isDone value
  | ⟨.isNull _, _⟩ => false
  | ⟨.nonNull _, _⟩ => true
  | ⟨.compare _ _ _ nan, _⟩ => nan

theorem negatedGuard_preserves :
    Cond.Consistent exceptDone ∧
      negatedGuard.toCond.holds exceptDone = negatedGuard.holds exceptDone ∧
      negatedGuard.toCond.leaves = negatedGuard.leaves ∧
      negatedGuard.toCond.isFlat = true := by
  have consistent : Cond.Consistent exceptDone := by
    rintro ⟨c, isTest⟩
    cases c <;> first | contradiction | simp [exceptDone, Cond.Test.negate, Cond.negate]
  exact ⟨consistent, BoolExpr.toCond_preserves consistent negatedGuard⟩

/-- Negating turns the inner disjunction into parts of the one conjunction, and then
all of it into one disjunction. -/
example : negatedGuard.toCond =
    .disj
      [.falsity (loadNamed "flag"), .truth (loadNamed "done"),
        .relation .lt (loadNamed "x") (int 1), .isNull (loadNamed "name"), .const false] :=
  rfl

end Sample

end JvmAssembler
