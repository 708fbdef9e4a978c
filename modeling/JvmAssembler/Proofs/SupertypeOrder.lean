import Mathlib
import JvmAssembler.Proofs.Subtyping

/-!
# The order of supertypes

A type is listed with its supertypes by taking types from a queue.  The queue may
hold a type several times and the hierarchy may be cyclic, so a turn of the loop
need not shorten the queue; but it queues the edges of a type only once.  At any
time the queue holds types at one distance from the start and, behind them, types
that are one edge further.

Main statement: the loop ends, after one turn for the type and one for each edge
that leaves a listed type.  The list starts with the type, repeats nothing, holds
what edges lead to and the root class, and goes from near to far.
-/

namespace JvmAssembler

/-- Exactly `count` steps lead from `start` to the last element. -/
inductive StepsTo {α : Type} (step : α → α → Prop) (start : α) : Nat → α → Prop where
  | refl : StepsTo step start 0 start
  | tail {count : Nat} {middle last : α} (before : StepsTo step start count middle)
      (edge : step middle last) : StepsTo step start (count + 1) last

namespace StepsTo

variable {α : Type} {step : α → α → Prop} {start middle last : α} {count : Nat}

theorem head (edge : step start middle) (after : StepsTo step middle count last) :
    StepsTo step start (count + 1) last := by
  induction after with
  | refl => exact .tail .refl edge
  | tail _ further ih => exact .tail ih further

theorem exists_iff : (∃ count, StepsTo step start count last) ↔
    Relation.ReflTransGen step start last := by
  constructor
  · rintro ⟨count, steps⟩
    induction steps with
    | refl => exact .refl
    | tail _ edge ih => exact ih.tail edge
  · intro leads
    induction leads with
    | refl => exact ⟨0, .refl⟩
    | tail _ edge ih =>
        obtain ⟨count, steps⟩ := ih
        exact ⟨count + 1, .tail steps edge⟩

end StepsTo

namespace MemberTable

variable (table : MemberTable)

/-- The least number of edges from `sub` to `sup`; infinite if none lead there. -/
noncomputable def distance (sub sup : JType) : ℕ∞ :=
  ⨅ (count : ℕ) (_ : StepsTo table.Extends sub count sup), (count : ℕ∞)

/-- The number of edges that leave these types. -/
def edgesFrom (types : List JType) : Nat :=
  (types.map fun ty => (table.parents ty).length).sum

/-- One turn of the walk, from a queue and what was visited to the next; none
without queued types. -/
def turn? : List JType × List JType → Option (List JType × List JType)
  | ([], _) => none
  | (next :: rest, order) =>
      if next ∈ order then some (rest, order)
      else some (rest ++ table.parents next, order ++ [next])

/-- A turn of the walk leads from one state to another. -/
def Turn (state state' : List JType × List JType) : Prop :=
  table.turn? state = some state'

variable {table} {queue order rest here beyond : List JType} {start next sub sup ty : JType}
variable {count : Nat}

/-! ## Distances -/

theorem distance_le (steps : StepsTo table.Extends sub count sup) :
    table.distance sub sup ≤ count :=
  iInf₂_le count steps

theorem le_distance {bound : ℕ∞} (least : ∀ count : ℕ, StepsTo table.Extends sub count sup →
    bound ≤ count) : bound ≤ table.distance sub sup :=
  le_iInf₂ least

theorem distance_eq_top (apart : ¬table.Inherits sub sup) : table.distance sub sup = ⊤ := by
  apply top_le_iff.mp
  apply le_distance
  intro count steps
  exact absurd (StepsTo.exists_iff.mp ⟨count, steps⟩) apart

/-! ## Turns of the loop -/

/-- The walk is what is visited when turns have emptied the queue.  Each turn takes
one type from the queue, and each newly visited type queues its edges. -/
theorem exists_turns (queue order : List JType) :
    ∃ count, StepsTo table.Turn (queue, order) count ([], table.walk queue order) ∧
      count + table.edgesFrom order =
        queue.length + table.edgesFrom (table.walk queue order) := by
  induction queue, order using walk.induct table with
  | case1 order =>
      rw [walk]
      exact ⟨0, .refl, rfl⟩
  | case2 order next rest known ih =>
      obtain ⟨count, turns, counted⟩ := ih
      have first : table.Turn (next :: rest, order) (rest, order) := by
        simp [Turn, turn?, known]
      rw [walk, if_pos known]
      refine ⟨count + 1, turns.head first, ?_⟩
      rw [List.length_cons]
      omega
  | case3 order next rest fresh ih =>
      obtain ⟨count, turns, counted⟩ := ih
      have first : table.Turn (next :: rest, order)
          (rest ++ table.parents next, order ++ [next]) := by
        simp [Turn, turn?, fresh]
      have visited : table.edgesFrom (order ++ [next]) =
          table.edgesFrom order + (table.parents next).length := by
        simp [edgesFrom]
      rw [walk, if_neg fresh]
      refine ⟨count + 1, turns.head first, ?_⟩
      rw [List.length_append] at counted
      rw [List.length_cons]
      omega

/-- The walk only adds to what is visited. -/
theorem exists_walk_eq_append (queue order : List JType) :
    ∃ later, table.walk queue order = order ++ later := by
  induction queue, order using walk.induct table with
  | case1 order => exact ⟨[], by rw [walk, List.append_nil]⟩
  | case2 order next rest known ih =>
      rw [walk, if_pos known]
      exact ih
  | case3 order next rest fresh ih =>
      rw [walk, if_neg fresh]
      obtain ⟨later, added⟩ := ih
      exact ⟨next :: later, by simpa using added⟩

theorem nodup_walk (distinct : order.Nodup) : (table.walk queue order).Nodup := by
  induction queue, order using walk.induct table with
  | case1 order =>
      rw [walk]
      exact distinct
  | case2 order next rest known ih =>
      rw [walk, if_pos known]
      exact ih distinct
  | case3 order next rest fresh ih =>
      rw [walk, if_neg fresh]
      exact ih (by simpa using distinct.concat fresh)

/-! ## From near to far -/

/-- The types stand in the order of their distances from `start`. -/
def Ascending (table : MemberTable) (start : JType) (types : List JType) : Prop :=
  types.Pairwise fun near far => table.distance start near ≤ table.distance start far

theorem Ascending.concat {types : List JType} (ascending : table.Ascending start types)
    (farthest : ∀ near ∈ types, table.distance start near ≤ table.distance start ty) :
    table.Ascending start (types ++ [ty]) := by
  refine List.pairwise_append.mpr ⟨ascending, List.pairwise_singleton .., ?_⟩
  intro near listed far isLast
  exact List.mem_singleton.mp isLast ▸ farthest near listed

/-- A state of the walk from `start` in which it goes through the types `count`
edges away: those still queued are `here`, and `beyond` is queued for the next
distance.  Whatever is nearer is visited. -/
structure Frontier (table : MemberTable) (start : JType) (count : Nat)
    (here beyond order : List JType) : Prop where
  here_steps : ∀ ty ∈ here, StepsTo table.Extends start count ty
  beyond_steps : ∀ ty ∈ beyond, StepsTo table.Extends start (count + 1) ty
  distance_le : ∀ ty ∈ order, table.distance start ty ≤ count
  nearer : ∀ ty, ∀ fewer < count, StepsTo table.Extends start fewer ty → ty ∈ order
  level : ∀ ty, StepsTo table.Extends start count ty → ty ∈ order ∨ ty ∈ here
  expanded : table.Expanded (here ++ beyond) order
  ascending : table.Ascending start order

namespace Frontier

theorem initial (table : MemberTable) (start : JType) : table.Frontier start 0 [start] [] [] where
  here_steps ty queued := List.mem_singleton.mp queued ▸ .refl
  beyond_steps ty none := absurd none List.not_mem_nil
  distance_le ty none := absurd none List.not_mem_nil
  nearer ty fewer negative := absurd negative (Nat.not_lt_zero fewer)
  level ty steps := by
    cases steps
    exact .inr List.mem_cons_self
  expanded ty none := absurd none List.not_mem_nil
  ascending := .nil

/-- With a distance done the walk goes on to the next. -/
theorem advance (frontier : table.Frontier start count [] beyond order) :
    table.Frontier start (count + 1) beyond [] order where
  here_steps := frontier.beyond_steps
  beyond_steps ty none := absurd none List.not_mem_nil
  distance_le ty visited := (frontier.distance_le ty visited).trans (by exact_mod_cast count.le_succ)
  nearer ty fewer less steps := by
    rcases Nat.lt_succ_iff_lt_or_eq.mp less with less | rfl
    · exact frontier.nearer ty fewer less steps
    · simpa using frontier.level ty steps
  level ty steps := by
    -- The last edge leaves a type at the distance that is done.
    cases steps with
    | @tail _ middle _ before edge =>
        have visited : middle ∈ order := by simpa using frontier.level middle before
        simpa using frontier.expanded middle visited ty edge
  expanded := by simpa using frontier.expanded
  ascending := frontier.ascending

theorem skip (frontier : table.Frontier start count (next :: here) beyond order)
    (known : next ∈ order) : table.Frontier start count here beyond order where
  here_steps ty queued := frontier.here_steps ty (List.mem_cons_of_mem next queued)
  beyond_steps := frontier.beyond_steps
  distance_le := frontier.distance_le
  nearer := frontier.nearer
  level ty steps := by
    rcases frontier.level ty steps with visited | queued
    · exact .inl visited
    · rcases List.mem_cons.mp queued with rfl | later
      · exact .inl known
      · exact .inr later
  expanded := frontier.expanded.skip known
  ascending := frontier.ascending

/-- A type that is not visited yet is no nearer than the types of the frontier. -/
theorem le_distance (frontier : table.Frontier start count here beyond order)
    (fresh : ty ∉ order) : count ≤ table.distance start ty := by
  apply MemberTable.le_distance
  intro fewer steps
  by_contra less
  exact fresh (frontier.nearer ty fewer (by exact_mod_cast not_le.mp less) steps)

theorem visit (frontier : table.Frontier start count (next :: here) beyond order)
    (fresh : next ∉ order) :
    table.Frontier start count here (beyond ++ table.parents next) (order ++ [next]) := by
  have steps : StepsTo table.Extends start count next :=
    frontier.here_steps next List.mem_cons_self
  refine
    { here_steps := fun ty queued => frontier.here_steps ty (List.mem_cons_of_mem next queued)
      beyond_steps := ?_
      distance_le := ?_
      nearer := fun ty fewer less before =>
        List.mem_append_left [next] (frontier.nearer ty fewer less before)
      level := ?_
      expanded := by simpa using frontier.expanded.visit
      ascending := ?_ }
  · intro ty queued
    rcases List.mem_append.mp queued with before | above
    · exact frontier.beyond_steps ty before
    · exact .tail steps above
  · intro ty visited
    rcases List.mem_append.mp visited with before | isNext
    · exact frontier.distance_le ty before
    · exact List.mem_singleton.mp isNext ▸ MemberTable.distance_le steps
  · intro ty sameLevel
    simp only [List.mem_append, List.mem_singleton]
    rcases frontier.level ty sameLevel with visited | queued
    · exact .inl (.inl visited)
    · rcases List.mem_cons.mp queued with rfl | later
      · exact .inl (.inr rfl)
      · exact .inr later
  · apply frontier.ascending.concat
    intro near visited
    exact (frontier.distance_le near visited).trans (frontier.le_distance fresh)

/-- The first queued type is at the distance of the frontier, or at the next one
if that is done. -/
theorem exists_first (frontier : table.Frontier start count here beyond order)
    (queued : here ++ beyond = next :: rest) :
    ∃ count' here' beyond', here' ++ beyond' = rest ∧
      table.Frontier start count' (next :: here') beyond' order := by
  cases here with
  | cons first here =>
      obtain ⟨rfl, rfl⟩ := List.cons.inj queued
      exact ⟨count, here, beyond, rfl, frontier⟩
  | nil =>
      obtain rfl : beyond = next :: rest := queued
      exact ⟨count + 1, rest, [], List.append_nil rest, frontier.advance⟩

end Frontier

theorem ascending_walk (queued : here ++ beyond = queue)
    (frontier : table.Frontier start count here beyond order) :
    table.Ascending start (table.walk queue order) := by
  -- The distance that the walk goes through changes along the induction.
  induction queue, order using walk.induct table generalizing count here beyond with
  | case1 order =>
      rw [walk]
      exact frontier.ascending
  | case2 order next rest known ih =>
      rw [walk, if_pos known]
      obtain ⟨count', here', beyond', rfl, frontier'⟩ := frontier.exists_first queued
      exact ih rfl (frontier'.skip known)
  | case3 order next rest fresh ih =>
      rw [walk, if_neg fresh]
      obtain ⟨count', here', beyond', rfl, frontier'⟩ := frontier.exists_first queued
      exact ih (List.append_assoc ..).symm (frontier'.visit fresh)

/-! ## The list of supertypes -/

/-- What is visited, and the root class after it for a reference type from which
no edges lead there. -/
theorem lineage_eq (table : MemberTable) (ty : JType) :
    table.lineage ty = table.walk [ty] [] ++
      if ty.isReference = true ∧ .object ∉ table.walk [ty] [] then [.object] else [] := by
  unfold lineage
  by_cases added : ty.isReference = true ∧ .object ∉ table.walk [ty] [] <;> simp [added]

theorem walk_singleton (table : MemberTable) (ty : JType) :
    table.walk [ty] [] = table.walk (table.parents ty) [ty] := by
  rw [walk, if_neg List.not_mem_nil, List.nil_append, List.nil_append]

theorem head?_lineage (table : MemberTable) (ty : JType) :
    (table.lineage ty).head? = some ty := by
  obtain ⟨later, added⟩ := table.exists_walk_eq_append (table.parents ty) [ty]
  rw [lineage_eq, walk_singleton, added]
  rfl

theorem nodup_lineage (table : MemberTable) (ty : JType) : (table.lineage ty).Nodup := by
  have distinct : (table.walk [ty] []).Nodup := nodup_walk .nil
  rw [lineage_eq]
  split
  · rename_i added
    simpa using distinct.concat added.2
  · simpa using distinct

theorem ascending_lineage (table : MemberTable) (ty : JType) :
    table.Ascending ty (table.lineage ty) := by
  have ascending : table.Ascending ty (table.walk [ty] []) :=
    ascending_walk rfl (Frontier.initial table ty)
  rw [lineage_eq]
  split
  · rename_i added
    -- No edges lead to the root class, so nothing is further than it.
    have unreached : table.distance ty .object = ⊤ :=
      distance_eq_top fun leads => added.2 (mem_walk_singleton.mpr leads)
    exact ascending.concat fun near _ => unreached ▸ le_top
  · simpa using ascending

/-- Listing the supertypes of a type, in any hierarchy.  The loop ends, after one
turn for the type and one for each edge that leaves a visited type.  The list
starts with the type and repeats nothing.  It holds exactly what declared edges
lead to, and the root class if the type is a reference type.  Types that take
fewer edges to reach stand earlier. -/
theorem lineage_enumerates (table : MemberTable) (ty : JType) :
    (∃ visited,
      StepsTo table.Turn ([ty], []) (1 + table.edgesFrom visited) ([], visited) ∧
      table.lineage ty = visited ++
        if ty.isReference = true ∧ .object ∉ visited then [.object] else []) ∧
    (table.lineage ty).head? = some ty ∧
    (table.lineage ty).Nodup ∧
    (∀ sup, sup ∈ table.lineage ty ↔
      table.Inherits ty sup ∨ ty.isReference = true ∧ sup = .object) ∧
    table.Ascending ty (table.lineage ty) := by
  refine ⟨⟨table.walk [ty] [], ?_, table.lineage_eq ty⟩, table.head?_lineage ty,
    table.nodup_lineage ty, fun sup => mem_lineage, table.ascending_lineage ty⟩
  obtain ⟨count, turns, counted⟩ := table.exists_turns [ty] []
  obtain rfl : count = 1 + table.edgesFrom (table.walk [ty] []) := counted
  exact turns

/-- A cycle of two classes that share an interface: each is listed once, and the
root class, to which no edge leads, comes last. -/
example :
    (MemberTable.new
      |>.declareClass "demo.Head" "demo.Tail" ["demo.Link"]
      |>.declareClass "demo.Tail" "demo.Head" ["demo.Link"]).lineage (.named "demo.Head") =
      [.named "demo.Head", .named "demo.Tail", .named "demo.Link", .object] := by
  decide +kernel

end MemberTable

end JvmAssembler
