import Mathlib
import JvmAssembler.Proofs.BranchRun
import JvmAssembler.Proofs.OperandFlow
import JvmAssembler.Sample

/-!
# Short-circuit evaluation of conditions

Conditions over single loads and constants are evaluated from left to right, and
only as far as the result is not settled.  The code of a condition makes the
same decision and loads the same operands in the same order.
-/

namespace JvmAssembler

/-! ## Leaves -/

namespace Fragment

/-- A single load of a named variable, or a constant. -/
def isLeaf : Fragment → Bool
  | [.load (.named _)] | [.constant _] | [.boolean _] | [.null] => true
  | _ => false

/-- The type of a leaf. -/
def leafType? (locals : LocalTable) : Fragment → Option JType
  | [.load (.named name)] =>
      (namedSlot? locals name).bind fun slot => Frame.typeIn? locals slot.toNat
  | [.constant literal] => some literal.type
  | [.boolean _] => some .boolean
  | [.null] => some .null
  | _ => none

/-- The value of a leaf. -/
def leafValue? (locals : LocalTable) (store : Store) : Fragment → Option Value
  | [.load (.named name)] => (namedSlot? locals name).bind store
  | [.constant literal] => some (Value.ofLiteral literal)
  | [.boolean value] => some (.int (if value then 1 else 0))
  | [.null] => some (.reference .null)
  | _ => none

/-- The instruction that loads a leaf. -/
def loadInstr? (locals : LocalTable) : Fragment → Option Instr
  | [.load (.named name)] =>
      (namedSlot? locals name).bind fun slot =>
        (Frame.typeIn? locals slot.toNat).map fun ty => .var (.loadOf ty) slot
  | [.constant literal] => some (Gen.constantInstr literal)
  | [.boolean value] => some (.op (if value then .iconst1 else .iconst0))
  | [.null] => some (.op .aconstNull)
  | _ => none

end Fragment

theorem Fragment.isSome_loadInstr? {locals : LocalTable} {leaf : Fragment} {ty : JType}
    (typed : leafType? locals leaf = some ty) : (loadInstr? locals leaf).isSome = true := by
  unfold leafType? at typed
  split at typed
  · obtain ⟨slot, found, typed⟩ := Option.bind_eq_some_iff.mp typed
    simp [loadInstr?, found, typed]
  all_goals first | rfl | contradiction

theorem Fragment.isValueChain_of_isLeaf {leaf : Fragment} (isLeaf : leaf.isLeaf = true) :
    leaf.isValueChain = true ∧ operandsIn leaf = [] := by
  unfold Fragment.isLeaf at isLeaf
  split at isLeaf
  all_goals first | exact ⟨rfl, rfl⟩ | contradiction

/-- Named variables hold values of the categories of their types. -/
def Store.Fits (store : Store) (locals : LocalTable) : Prop :=
  ∀ name slot ty, namedSlot? locals name = some slot → Frame.typeIn? locals slot.toNat = some ty →
    ∃ value, store slot = some value ∧ value.category = ty.category

/-! ## Evaluation -/

open Fragment

section Evaluation

variable (locals : LocalTable) (store : Store)

mutual

/-- The result of a condition, and the leaves that are visited to find it. -/
def Cond.evaluate : Cond → Option (Bool × List Fragment)
  | .const value => some (value, [])
  | .truth leaf =>
      ((leafValue? locals store leaf).bind Value.truth?).map fun holds => (holds, [leaf])
  | .falsity leaf =>
      ((leafValue? locals store leaf).bind Value.truth?).map fun holds => (!holds, [leaf])
  | .isNull leaf =>
      ((leafValue? locals store leaf).bind Value.isNull?).map fun isNull => (isNull, [leaf])
  | .nonNull leaf =>
      ((leafValue? locals store leaf).bind Value.isNull?).map fun isNull => (!isNull, [leaf])
  | .compare op left right nan =>
      (leafValue? locals store left).bind fun leftValue =>
        (leafValue? locals store right).bind fun rightValue =>
          (op.compare? nan leftValue rightValue).map fun holds => (holds, [left, right])
  | .conj parts => evaluateUntil false parts
  | .disj parts => evaluateUntil true parts

/-- Evaluate conditions up to the first one with this result. -/
def evaluateUntil (sense : Bool) : List Cond → Option (Bool × List Fragment)
  | [] => some (!sense, [])
  | part :: rest =>
      part.evaluate.bind fun (holds, visited) =>
        if holds = sense then some (holds, visited)
        else (evaluateUntil sense rest).map fun (holds, more) => (holds, visited ++ more)

end

end Evaluation

section Simple

variable (locals : LocalTable)

mutual

/-- A condition over leaves of fitting types: booleans are tested for their
truth, references for `null`, and comparisons relate their operands without
boxing. -/
def Cond.isSimple : Cond → Bool
  | .const _ => true
  | .truth leaf | .falsity leaf => isLeaf leaf && leafType? locals leaf = some .boolean
  | .isNull leaf | .nonNull leaf => isLeaf leaf && (leafType? locals leaf).any JType.isReference
  | .compare op left right nan =>
      isLeaf left && isLeaf right && op.Consistent nan &&
        (leafType? locals left).any fun leftType =>
          (leafType? locals right).any fun rightType => op.relates leftType rightType
  | .conj parts | .disj parts => allSimple parts

def allSimple : List Cond → Bool
  | [] => true
  | part :: rest => part.isSimple && allSimple rest

end

mutual

theorem Cond.chains_of_isSimple {locals : LocalTable} :
    (c : Cond) → c.isSimple locals = true → ∀ operand ∈ c.operands, operand.isValueChain = true
  | .const _, _ => by simp [Cond.operands]
  | .truth leaf, simple | .falsity leaf, simple | .isNull leaf, simple | .nonNull leaf, simple => by
      simp only [Cond.isSimple, Bool.and_eq_true] at simple
      obtain ⟨chain, noOperands⟩ := isValueChain_of_isLeaf simple.1
      simpa [Cond.operands, noOperands] using chain
  | .compare op left right nan, simple => by
      simp only [Cond.isSimple, Bool.and_eq_true] at simple
      obtain ⟨leftChain, noLeft⟩ := isValueChain_of_isLeaf simple.1.1.1
      obtain ⟨rightChain, noRight⟩ := isValueChain_of_isLeaf simple.1.1.2
      simpa [Cond.operands, noLeft, noRight] using ⟨leftChain, rightChain⟩
  | .conj parts, simple | .disj parts, simple => chains_of_allSimple parts simple

theorem chains_of_allSimple {locals : LocalTable} :
    (parts : List Cond) → allSimple locals parts = true →
      ∀ operand ∈ operandsInParts parts, operand.isValueChain = true
  | [], _ => by simp [operandsInParts]
  | part :: rest, simple => by
      simp only [allSimple, Bool.and_eq_true] at simple
      intro operand mem
      rcases List.mem_append.mp mem with here | later
      · exact part.chains_of_isSimple simple.1 operand here
      · exact chains_of_allSimple rest simple.2 operand later

end

mutual

/-- Every leaf that evaluation visits can be loaded. -/
theorem Cond.isSome_loadInstr?_of_visited {locals : LocalTable} {store : Store} :
    (c : Cond) → c.isSimple locals = true → ∀ {holds visited},
      c.evaluate locals store = some (holds, visited) →
      ∀ leaf ∈ visited, (loadInstr? locals leaf).isSome = true
  | .const _, _, _, _, evaluated => by
      obtain ⟨-, rfl⟩ := Prod.mk.inj (Option.some.inj evaluated)
      simp
  | .truth leaf, simple, _, _, evaluated | .falsity leaf, simple, _, _, evaluated => by
      simp only [Cond.isSimple, Bool.and_eq_true, decide_eq_true_eq] at simple
      obtain ⟨_, -, pair⟩ := Option.map_eq_some_iff.mp evaluated
      obtain ⟨-, rfl⟩ := Prod.mk.inj pair
      simpa using isSome_loadInstr? simple.2
  | .isNull leaf, simple, _, _, evaluated | .nonNull leaf, simple, _, _, evaluated => by
      simp only [Cond.isSimple, Bool.and_eq_true, Option.any_eq_true] at simple
      obtain ⟨-, ty, typed, -⟩ := simple
      obtain ⟨_, -, pair⟩ := Option.map_eq_some_iff.mp evaluated
      obtain ⟨-, rfl⟩ := Prod.mk.inj pair
      simpa using isSome_loadInstr? typed
  | .compare op left right nan, simple, _, _, evaluated => by
      simp only [Cond.isSimple, Bool.and_eq_true, Option.any_eq_true] at simple
      obtain ⟨-, leftType, typedLeft, rightType, typedRight, -⟩ := simple
      obtain ⟨_, -, evaluated⟩ := Option.bind_eq_some_iff.mp evaluated
      obtain ⟨_, -, evaluated⟩ := Option.bind_eq_some_iff.mp evaluated
      obtain ⟨_, -, pair⟩ := Option.map_eq_some_iff.mp evaluated
      obtain ⟨-, rfl⟩ := Prod.mk.inj pair
      simpa using ⟨isSome_loadInstr? typedLeft, isSome_loadInstr? typedRight⟩
  | .conj parts, simple, _, _, evaluated | .disj parts, simple, _, _, evaluated =>
      isSome_loadInstr?_of_visitedUntil _ parts simple evaluated

theorem isSome_loadInstr?_of_visitedUntil {locals : LocalTable} {store : Store}
    (sense : Bool) :
    (parts : List Cond) → allSimple locals parts = true → ∀ {holds visited},
      evaluateUntil locals store sense parts = some (holds, visited) →
      ∀ leaf ∈ visited, (loadInstr? locals leaf).isSome = true
  | [], _, _, _, evaluated => by
      obtain ⟨-, rfl⟩ := Prod.mk.inj (Option.some.inj evaluated)
      simp
  | part :: rest, simple, _, _, evaluated => by
      simp only [allSimple, Bool.and_eq_true] at simple
      obtain ⟨⟨holds, visited⟩, first, evaluated⟩ := Option.bind_eq_some_iff.mp evaluated
      have loadable := part.isSome_loadInstr?_of_visited simple.1 first
      by_cases same : holds = sense
      · simp only [same, if_true] at evaluated
        obtain ⟨-, rfl⟩ := Prod.mk.inj (Option.some.inj evaluated)
        exact loadable
      · simp only [same, if_false] at evaluated
        obtain ⟨⟨_, more⟩, others, pair⟩ := Option.map_eq_some_iff.mp evaluated
        obtain ⟨-, rfl⟩ := Prod.mk.inj pair
        intro leaf mem
        rcases List.mem_append.mp mem with here | later
        · exact loadable leaf here
        · exact isSome_loadInstr?_of_visitedUntil sense rest simple.2 others leaf later

end

end Simple

namespace Gen

variable {ctx : Context} {locals : LocalTable} {types : Position → Option JType}
variable {store : Store} {pos : Position} {s t : State} {leaf : Fragment}

/-- The local variables and the types that probing remembers. -/
structure Recalls (locals : LocalTable) (types : Position → Option JType) (s : State) :
    Prop where
  locals_eq : s.frame.locals = locals
  knows : Knows types s

theorem Recalls.of_eq (recalls : Recalls locals types s)
    (localsEq : t.frame.locals = s.frame.locals) (probedEq : t.probed = s.probed) :
    Recalls locals types t where
  locals_eq := localsEq.trans recalls.locals_eq
  knows := by
    unfold Knows
    rw [probedEq]
    exact recalls.knows

theorem Recalls.stable : Stable (Recalls locals types) where
  emits _ _ _ _ emits recalls := recalls.of_eq emits.locals_eq emits.probed_eq
  jump _ _ _ _ _ _ run recalls :=
    have marks := (jump_marks run).1
    recalls.of_eq marks.locals_eq marks.probed_eq
  newLabel _ _ _ run recalls :=
    have opens := newLabel_opens run
    recalls.of_eq (by rw [opens.frame_eq]) opens.probed_eq
  place _ _ _ _ _ run recalls :=
    have marks := (place_later run).1
    recalls.of_eq marks.locals_eq marks.probed_eq

/-- One instruction is written that loads a value.  Memory that is no longer
needed may be dropped. -/
structure Loaded (s t : State) (instr : Instr) (ty : JType) : Prop where
  stack_eq : t.frame.stack = ty :: s.frame.stack
  locals_eq : t.frame.locals = s.frame.locals
  alive_eq : t.frame.alive = s.frame.alive
  shapes_eq : t.frame.shapes = s.frame.shapes
  code_eq : t.code = s.code ++ [instr]
  nextLabel_eq : t.output.nextLabel = s.output.nextLabel
  probed_eq : t.probed = s.probed ∨ t.probed = ∅

theorem Loaded.recalls {instr : Instr} {ty : JType} (loaded : Loaded s t instr ty)
    (recalls : Recalls locals types s) : Recalls locals types t where
  locals_eq := loaded.locals_eq.trans recalls.locals_eq
  knows := by
    unfold Knows
    rcases loaded.probed_eq with same | dropped
    · rw [same]
      exact recalls.knows
    · simp [dropped]

/-- A leaf is written as one instruction. -/
theorem leaf_emits {op : Op} (isLeaf : Fragment.isLeaf [op] = true)
    (run : op.body ctx pos s = .ok () t) :
    ∃ ty instr, leafType? s.frame.locals [op] = some ty ∧ ty.isVoid = false ∧
      loadInstr? s.frame.locals [op] = some instr ∧ Emits s t [instr] (ty :: s.frame.stack) := by
  unfold Fragment.isLeaf at isLeaf
  split at isLeaf
  · rename_i single
    obtain ⟨rfl, -⟩ := List.cons.inj single
    obtain ⟨slot, ty, found, typed, notVoid, emits⟩ := load_emits run
    exact ⟨ty, _, by simp [leafType?, found, typed], notVoid,
      by simp [loadInstr?, found, typed], emits⟩
  · rename_i literal single
    obtain ⟨rfl, -⟩ := List.cons.inj single
    exact ⟨_, _, rfl, by cases literal <;> rfl, rfl, constant_emits run⟩
  · rename_i single
    obtain ⟨rfl, -⟩ := List.cons.inj single
    exact ⟨_, _, rfl, rfl, rfl, source_emits (by split <;> rfl) run⟩
  · rename_i single
    obtain ⟨rfl, -⟩ := List.cons.inj single
    exact ⟨_, _, rfl, rfl, rfl, source_emits rfl run⟩
  · contradiction

/-- The setting in which conditions over leaves are run: loads are watched, and
the generator keeps its locals and remembers types that are right. -/
def recalling (store : Store) (locals : LocalTable) (types : Position → Option JType) :
    Setting :=
  ⟨true, store, Recalls locals types⟩

/-- The instruction that loads a leaf pushes its value. -/
theorem leaf_runs {ty : JType} {instr : Instr} (types : Position → Option JType)
    (fits : store.Fits locals) (typed : leafType? locals leaf = some ty)
    (notVoid : ty.isVoid = false) (loaded : loadInstr? locals leaf = some instr) :
    ∃ value, leafValue? locals store leaf = some value ∧ value.category = ty.category ∧
      Runs (recalling store locals types) [instr] [] [instr] none [value] := by
  unfold leafType? at typed
  split at typed
  · obtain ⟨slot, found, typed⟩ := Option.bind_eq_some_iff.mp typed
    obtain ⟨value, stored, isValue⟩ := fits _ slot ty found typed
    obtain rfl : Instr.var (.loadOf ty) slot = instr := by
      simpa [loadInstr?, found, typed] using loaded
    refine ⟨value, by simp [leafValue?, found, stored], isValue, ?_⟩
    have runs : Runs (recalling store locals types) [.var (.loadOf ty) slot] [] _ none [value] :=
      Runs.of_loadOf notVoid stored isValue
    rwa [show (recalling store locals types).watching = true from rfl,
      watched_of_pushes (Instr.effect?_loadOf notVoid slot)] at runs
  · rename_i literal
    obtain rfl := Option.some.inj typed
    obtain rfl := Option.some.inj loaded
    refine ⟨_, rfl, Value.category_ofLiteral _, ?_⟩
    have runs : Runs (recalling store locals types) [constantInstr literal] [] _ none _ :=
      Runs.of_constant literal
    rwa [show (recalling store locals types).watching = true from rfl,
      watched_of_pushes (Instr.effect?_constantInstr literal).2] at runs
  · rename_i value
    obtain rfl := Option.some.inj typed
    obtain rfl := Option.some.inj loaded
    refine ⟨_, rfl, rfl, ?_⟩
    cases value <;> exact Runs.of_go fun _ => rfl
  · obtain rfl := Option.some.inj typed
    obtain rfl := Option.some.inj loaded
    exact ⟨_, rfl, rfl, Runs.of_go fun _ => rfl⟩
  · contradiction

theorem leaf_value {found : JType} (isLeaf : leaf.isLeaf = true)
    (run : value (codeFrom ctx pos 0 leaf) s = .ok found t) :
    ∃ instr, leafType? s.frame.locals leaf = some found ∧ found.isVoid = false ∧
      loadInstr? s.frame.locals leaf = some instr ∧ Loaded s t instr found := by
  obtain ⟨op, rfl⟩ : ∃ op, leaf = [op] := by
    unfold Fragment.isLeaf at isLeaf
    split at isLeaf
    all_goals first | exact ⟨_, rfl⟩ | contradiction
  obtain ⟨run, rest, stackEq, -⟩ := value_eq_ok.mp run
  obtain ⟨_, u, first, run⟩ := bind_eq_ok.mp run
  obtain ⟨-, rfl⟩ := pure_eq_ok.mp run
  obtain ⟨alive, v, body, rfl⟩ := operation_eq_ok.mp first
  obtain ⟨ty, instr, typed, notVoid, loads, emits⟩ := leaf_emits isLeaf body
  obtain ⟨rfl, -⟩ : ty = found ∧ _ := by
    rw [State.leave, emits.stack_eq] at stackEq
    exact List.cons.inj stackEq
  refine ⟨instr, typed, notVoid, loads, ⟨emits.stack_eq, emits.locals_eq, emits.alive_eq,
    emits.shapes_eq, emits.instrs_eq, emits.nextLabel_eq, ?_⟩⟩
  by_cases outermost : s.depth = 0
  · exact .inr (by simp [State.leave, outermost])
  · exact .inl (by simp [State.leave, outermost, emits.probed_eq])

theorem type?_leaf (isLeaf : leaf.isLeaf = true) :
    leaf.type? ctx locals = (leafType? locals leaf).filter fun ty => !ty.isVoid := by
  unfold Fragment.isLeaf at isLeaf
  split at isLeaf
  · rename_i name
    have found : localType? locals (.named name) = leafType? locals [.load (.named name)] := by
      simp [localType?, leafType?, namedSlot?, Option.bind_map]
    rw [Fragment.type?, opsEffect, Op.effect, found]
    cases leafType? locals [.load (.named name)] with
    | none => rfl
    | some ty =>
        cases isVoid : ty.isVoid <;> simp [pushed, isVoid, opsEffect, soleType, Option.filter]
  · rename_i literal
    cases literal <;> rfl
  · rfl
  · rfl
  · contradiction

/-- A leaf at a position with a known type loads its value. -/
theorem leaf_yields (isLeaf : leaf.isLeaf = true) (fits : store.Fits locals)
    (known : types pos = leaf.type? ctx locals) :
    Yields ctx (recalling store locals types) ⟨pos, codeFrom ctx pos 0 leaf⟩
      (leafType? locals leaf)
      ((leafValue? locals store leaf).map fun value =>
        (value, [leaf].filterMap (loadInstr? locals))) where
  probed s t found alive recalls run := by
    obtain ⟨frameEq, -⟩ := probe_ok run
    have dryRecalls : Recalls locals types s.dryRun := ⟨recalls.locals_eq, recalls.knows⟩
    have dryRun : ∀ dry, Gen.value (codeFrom ctx pos 0 leaf) s.dryRun = .ok found dry →
        leaf.type? ctx locals = some found ∧ Knows types dry := by
      intro dry valued
      obtain ⟨_, typed, notVoid, -, loaded⟩ := leaf_value isLeaf valued
      rw [dryRecalls.locals_eq] at typed
      exact ⟨by simp [type?_leaf isLeaf, typed, notVoid], (loaded.recalls dryRecalls).knows⟩
    obtain ⟨isType, knows⟩ := probe_knows known recalls.knows dryRun run
    rw [type?_leaf isLeaf] at isType
    exact ⟨(Option.filter_eq_some_iff.mp isType).1,
      ⟨by rw [frameEq, recalls.locals_eq], knows⟩⟩
  valued s t found alive recalls run := by
    obtain ⟨instr, typed, notVoid, loads, loaded⟩ := leaf_value isLeaf run
    rw [recalls.locals_eq] at typed loads
    obtain ⟨value, isValue, category, runs⟩ := leaf_runs types fits typed notVoid loads
    have whole : written s t = [instr] := written_eq loaded.code_eq
    refine ⟨(value, [instr]), typed, by simp [isValue, loads], category,
      ⟨⟨Later.of_shapes loaded.nextLabel_eq loaded.shapes_eq, ?_, loaded.recalls recalls, ?_⟩,
        loaded.alive_eq.trans alive, loaded.stack_eq⟩⟩
    · rw [whole, loaded.code_eq]
    · rw [whole]
      exact runs

end Gen

open Gen

/-- The instructions that load the leaves that evaluation visits. -/
def loadsOf (locals : LocalTable) (result : Bool × List Fragment) : Bool × List Instr :=
  (result.1, result.2.filterMap (loadInstr? locals))

section

variable {locals : LocalTable} {store : Store}

/-- Evaluation settles a junction as the outcomes of its parts do. -/
theorem settle?_evaluate (sense : Bool) (parts : List Cond) :
    settle? sense (parts.map fun part => (part.evaluate locals store).map (loadsOf locals)) =
      (evaluateUntil locals store sense parts).map (loadsOf locals) := by
  induction parts with
  | nil => rfl
  | cons part rest ih =>
      rw [List.map_cons, settle?, ih, evaluateUntil]
      cases part.evaluate locals store with
      | none => rfl
      | some result =>
          obtain ⟨holds, visited⟩ := result
          by_cases same : holds = sense
          · simp [loadsOf, same]
          · cases evaluateUntil locals store sense rest <;> simp [loadsOf, same]

end

section

variable (ctx : Context) {locals : LocalTable} {types : Position → Option JType}
variable {store : Store}

mutual

/-- The code of a condition makes the decision that evaluation makes, and loads
the leaves that evaluation visits. -/
theorem Cond.branch_deciding (fits : store.Fits locals) (pos : Position) :
    (c : Cond) → c.isSimple locals = true → Known ctx locals types pos c.operands c.operandAt? →
      Deciding (recalling store locals types) (c.branch ctx pos)
        ((c.evaluate locals store).map (loadsOf locals))
  | .const value, _, _ => constBranch_deciding Recalls.stable value
  | .truth leaf, simple, known => by
      simp only [Cond.isSimple, Bool.and_eq_true, decide_eq_true_eq] at simple
      have known := known.operand 0 (List.Subset.refl _) fun _ => rfl
      have deciding := truthBranch_deciding Recalls.stable true
        (leaf_yields simple.1 fits known.type_eq) (by simp [simple.2, JType.isPrimitive])
      cases evaluated : leafValue? locals store leaf <;>
        simpa [Cond.branch, Cond.evaluate, evaluated, Function.comp_def, loadsOf] using deciding
  | .falsity leaf, simple, known => by
      simp only [Cond.isSimple, Bool.and_eq_true, decide_eq_true_eq] at simple
      have known := known.operand 0 (List.Subset.refl _) fun _ => rfl
      have deciding := truthBranch_deciding Recalls.stable false
        (leaf_yields simple.1 fits known.type_eq) (by simp [simple.2, JType.isPrimitive])
      cases evaluated : leafValue? locals store leaf <;>
        simpa [Cond.branch, Cond.evaluate, evaluated, Function.comp_def, loadsOf] using deciding
  | .isNull leaf, simple, known => by
      simp only [Cond.isSimple, Bool.and_eq_true, Option.any_eq_true] at simple
      obtain ⟨isLeaf, ty, typed, reference⟩ := simple
      have known := known.operand 0 (List.Subset.refl _) fun _ => rfl
      have deciding := nullBranch_deciding Recalls.stable true
        (leaf_yields isLeaf fits known.type_eq) (by simp [typed, reference])
      cases evaluated : leafValue? locals store leaf <;>
        simpa [Cond.branch, Cond.evaluate, evaluated, Function.comp_def, loadsOf] using deciding
  | .nonNull leaf, simple, known => by
      simp only [Cond.isSimple, Bool.and_eq_true, Option.any_eq_true] at simple
      obtain ⟨isLeaf, ty, typed, reference⟩ := simple
      have known := known.operand 0 (List.Subset.refl _) fun _ => rfl
      have deciding := nullBranch_deciding Recalls.stable false
        (leaf_yields isLeaf fits known.type_eq) (by simp [typed, reference])
      cases evaluated : leafValue? locals store leaf <;>
        simpa [Cond.branch, Cond.evaluate, evaluated, Function.comp_def, loadsOf] using deciding
  | .compare op left right nan, simple, known => by
      simp only [Cond.isSimple, Bool.and_eq_true, decide_eq_true_eq, Option.any_eq_true] at simple
      obtain ⟨⟨⟨isLeft, isRight⟩, consistent⟩, leftType, typedLeft, rightType, typedRight, related⟩ :=
        simple
      have knownLeft := known.operand 0 (by simp [Cond.operands]) fun _ => rfl
      have knownRight := known.operand 1 (by simp [Cond.operands]) fun _ => rfl
      have yieldsLeft := leaf_yields isLeft fits knownLeft.type_eq
      have yieldsRight := leaf_yields isRight fits knownRight.type_eq
      rw [typedLeft] at yieldsLeft
      rw [typedRight] at yieldsRight
      intro s t sense target alive holds old run
      obtain ⟨outcome, isOutcome, decides⟩ := compareBranch_decides Recalls.stable yieldsLeft
        yieldsRight related (fun _ => consistent) alive holds old run
      refine ⟨outcome, ?_, decides⟩
      rw [← isOutcome]
      cases evaluatedLeft : leafValue? locals store left <;>
        cases evaluatedRight : leafValue? locals store right <;>
        simp [Cond.evaluate, evaluatedLeft, evaluatedRight, RelOp.outcome?, Function.comp_def,
          loadsOf, ← List.filterMap_append]
  | .conj parts, simple, known => by
      rw [Cond.evaluate, ← settle?_evaluate]
      exact conjBranch_deciding Recalls.stable (branchesFrom_deciding fits pos 0 parts simple known)
  | .disj parts, simple, known => by
      rw [Cond.evaluate, ← settle?_evaluate]
      exact disjBranch_deciding Recalls.stable (branchesFrom_deciding fits pos 0 parts simple known)

theorem branchesFrom_deciding (fits : store.Fits locals) (pos : Position) (index : Nat) :
    (parts : List Cond) → allSimple locals parts = true →
      Known ctx locals types pos (operandsInParts parts) (operandInParts? index parts) →
      List.Forall₂ (Deciding (recalling store locals types)) (branchesFrom ctx pos index parts)
        (parts.map fun part => (part.evaluate locals store).map (loadsOf locals))
  | [], _, _ => .nil
  | part :: rest, simple, known => by
      simp only [allSimple, Bool.and_eq_true] at simple
      have deciding := part.branch_deciding fits (index :: pos) simple.1
        (known.child index (by simp [operandsInParts])
          fun path operand found => by simpa [operandInParts?] using found)
      have decidingRest := branchesFrom_deciding fits pos (index + 1) rest simple.2
        (known.mono (by simp [operandsInParts]) fun _ _ => operandInParts?_cons_of_rest)
      exact .cons deciding decidingRest

end

end

/-- Conditions compile to short-circuit code.  Wherever a condition over loads
and constants is generated, its code leaves through the target exactly if the
condition evaluates to the given sense and falls through otherwise; it keeps the
operand stack, and loads exactly the leaves that evaluation visits, in order. -/
theorem Cond.branch_shortCircuits (ctx : Context) (pos : Position) (c : Cond) (sense : Bool)
    (target : Label) (s t : State) (store : Store) (stack : List Value)
    (alive : s.frame.alive = true) (simple : c.isSimple s.frame.locals = true)
    (unprobed : ∀ path operand, c.operandAt? path = some operand →
      s.probed[path.reverse ++ pos]? = none)
    (allocated : target.id < s.output.nextLabel) (fits : store.Fits s.frame.locals)
    (run : c.branch ctx pos sense target s = .ok () t) :
    ∃ holds visited trace, c.evaluate s.frame.locals store = some (holds, visited) ∧
      t.code = s.code ++ written s t ∧
      Exec (written s t) ⟨.code (written s t), stack, store⟩ trace
        ⟨if holds = sense then .left target else .code [], stack, store⟩ ∧
      (trace.filter Instr.isLoad).map some = visited.map (loadInstr? s.frame.locals) := by
  obtain ⟨types, knows, known⟩ := exists_known ctx pos s (c.chains_of_isSimple simple) unprobed
  obtain ⟨outcome, isOutcome, decides⟩ :=
    c.branch_deciding ctx fits pos simple known alive ⟨rfl, knows⟩ allocated run
  obtain ⟨⟨holds, visited⟩, evaluated, rfl⟩ := Option.map_eq_some_iff.mp isOutcome
  have advance := c.branch_advances ctx pos List.suffix_rfl (List.mem_singleton.mpr rfl) sense run
  have whole : Within (written s t) (written s t) [] := ⟨advance.placed_nodup, by simp⟩
  obtain ⟨trace, exec, loads⟩ := decides.runs whole stack
  have unplaced : target ∉ placed (written s t) := fun mem =>
    absurd (advance.placed_range target mem).1 (by simpa using allocated)
  have exitEq : exitPoint (written s t) [] (if holds = sense then some target else none) =
      if holds = sense then .left target else .code [] := by
    split
    · exact destination_eq_left unplaced
    · rfl
  refine ⟨holds, visited, trace, evaluated, decides.code_eq, ?_, ?_⟩
  · rw [← exitEq]
    rw [List.append_nil] at exec
    exact exec
  · have loadable := c.isSome_loadInstr?_of_visited simple evaluated
    have loads : trace.filter Instr.isLoad = visited.filterMap (loadInstr? s.frame.locals) := loads
    rw [loads, List.map_filterMap_some_eq_filter_map_isSome, List.filter_eq_self]
    simpa using loadable

namespace Sample

/-- `flag && (n < m || r == null) && !(x >= x)` -/
def guard : Cond :=
  .conj
    [.truth (loadNamed "flag"),
      .disj [.relation .lt (loadNamed "n") (loadNamed "m"), .isNull (loadNamed "r")],
      .compare .lt (loadNamed "x") (loadNamed "x") true]

def guardContext : Context :=
  { classContext "Demo" {} with isStatic := true, result := .void }

/-- A state with variables for the guard and one label. -/
def guardState : State where
  frame := { locals :=
    { types := #[some .boolean, some .int, some .long, some .long, some .string, some .double,
        some .double]
      names := #[some "flag", some "n", some "m", none, some "r", some "x", none] } }
  output := { nextLabel := 1 }

/-- Every variable holds the same value of its category; `x` is not a number. -/
def guardStore : Store := fun slot =>
  (guardState.frame.slotType? slot.toNat).map fun ty =>
    match ty.category with
    | .int => .int 1
    | .long => .long 5
    | .float => .float ⟨0⟩
    | .double => .double ⟨0x7ff8000000000000⟩
    | .reference => .reference .null

/-- Whether a run succeeds. -/
def succeeds : EStateM.Result Error State Unit → Bool
  | .ok _ _ => true
  | .error _ _ => false

theorem guard_shortCircuits :
    guard.isSimple guardState.frame.locals = true ∧ guardStore.Fits guardState.frame.locals ∧
      ∃ t, guard.branch guardContext [] false ⟨0⟩ guardState = .ok () t ∧
        ∃ holds visited trace,
          guard.evaluate guardState.frame.locals guardStore = some (holds, visited) ∧
          t.code = guardState.code ++ written guardState t ∧
          Exec (written guardState t) ⟨.code (written guardState t), [], guardStore⟩ trace
            ⟨if holds = false then .left ⟨0⟩ else .code [], [], guardStore⟩ ∧
          (trace.filter Instr.isLoad).map some =
            visited.map (loadInstr? guardState.frame.locals) := by
  have simple : guard.isSimple guardState.frame.locals = true := by decide +kernel
  have fits : guardStore.Fits guardState.frame.locals := by
    intro name slot ty _ typed
    refine ⟨_, by simp [guardStore, Frame.slotType?, typed]; rfl, ?_⟩
    cases ty.category <;> rfl
  have runs : succeeds (guard.branch guardContext [] false ⟨0⟩ guardState) = true := by
    decide +kernel
  refine ⟨simple, fits, ?_⟩
  cases run : guard.branch guardContext [] false ⟨0⟩ guardState with
  | ok _ t =>
      exact ⟨t, rfl, Cond.branch_shortCircuits guardContext [] guard false ⟨0⟩ guardState t
        guardStore [] rfl simple (by simp [guardState]) (by decide) fits run⟩
  | error e t => simp [run, succeeds] at runs

end Sample

end JvmAssembler
