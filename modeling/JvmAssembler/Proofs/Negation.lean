import Mathlib
import JvmAssembler.Proofs.Alike
import JvmAssembler.Proofs.Simulation
import JvmAssembler.Sample

/-!
# Negated conditions

A condition is negated by rewriting its tree, and a condition is compiled for
either sense.  Main statement: compiling the negated tree for one sense does the
same as compiling the tree itself for the other.
-/

namespace JvmAssembler

open Gen

mutual

theorem Cond.negate_negate : (c : Cond) → c.negate.negate = c
  | .const value => by simp [Cond.negate]
  | .truth _ | .falsity _ | .isNull _ | .nonNull _ => rfl
  | .compare op _ _ nan => by simp [Cond.negate]
  | .conj parts | .disj parts => by simp [Cond.negate, negateAll_negateAll parts]

theorem negateAll_negateAll : (parts : List Cond) → Cond.negateAll (Cond.negateAll parts) = parts
  | [] => rfl
  | part :: rest => by simp [Cond.negateAll, part.negate_negate, negateAll_negateAll rest]

end

/-- The error with a fixed operator in place of the comparison that it names. -/
def Error.maskOperator : Error → Error
  | .invalidInput (.notOnBoolean _) => .invalidInput (.notOnBoolean .eq)
  | .invalidInput (.notComparable _ left right) => .invalidInput (.notComparable .eq left right)
  | e => e

/-! ## The two ways of negating are alike -/

mutual

theorem Cond.branch_negate_alike (ctx : Context) {pairing : Pairing}
    (masked : ∀ {e e' : Error}, e.maskOperator = e'.maskOperator → pairing.errors e e')
    (pos pos' : Position) :
    (c : Cond) → pairing.Covers pos pos' c.operandAt? →
      AlikeBranch ctx pairing true (c.branch ctx pos) (c.negate.branch ctx pos')
  | .const value, _ => by
      have alike : AlikeBranch ctx pairing true _ _ := .constBranch value
      rwa [Bool.xor_true] at alike
  | .truth value, covers =>
      .truthBranch true (codeFrom_alike ctx pairing (0 :: pos) (0 :: pos') 0 value
        (covers.operand 0 fun _ => rfl).2)
  | .falsity value, covers =>
      .truthBranch false (codeFrom_alike ctx pairing (0 :: pos) (0 :: pos') 0 value
        (covers.operand 0 fun _ => rfl).2)
  | .isNull value, covers =>
      have inner := covers.operand 0 fun _ => rfl
      .nullBranch true ⟨inner.1, codeFrom_alike ctx pairing (0 :: pos) (0 :: pos') 0 value inner.2⟩
  | .nonNull value, covers =>
      have inner := covers.operand 0 fun _ => rfl
      .nullBranch false ⟨inner.1, codeFrom_alike ctx pairing (0 :: pos) (0 :: pos') 0 value inner.2⟩
  | .compare op left right nan, covers => by
      have first := covers.operand 0 fun _ => rfl
      have second := covers.operand 1 fun _ => rfl
      have alike : AlikeBranch ctx pairing true _ _ := .compareBranch op nan
        (Alike.ofOperand first.1 (codeFrom_alike ctx pairing (0 :: pos) (0 :: pos') 0 left first.2))
        (Alike.ofOperand second.1
          (codeFrom_alike ctx pairing (1 :: pos) (1 :: pos') 0 right second.2))
        (masked rfl) fun _ _ => masked rfl
      rwa [Bool.xor_true] at alike
  | .conj parts, covers =>
      .conjBranch_disjBranch (branchesFrom_negate_alike ctx masked pos pos' 0 parts covers)
  | .disj parts, covers =>
      .disjBranch_conjBranch (branchesFrom_negate_alike ctx masked pos pos' 0 parts covers)

theorem branchesFrom_negate_alike (ctx : Context) {pairing : Pairing}
    (masked : ∀ {e e' : Error}, e.maskOperator = e'.maskOperator → pairing.errors e e')
    (pos pos' : Position) (index : Nat) :
    (parts : List Cond) → pairing.Covers pos pos' (operandInParts? index parts) →
      List.Forall₂ (AlikeBranch ctx pairing true) (branchesFrom ctx pos index parts)
        (branchesFrom ctx pos' index (Cond.negateAll parts))
  | [], _ => .nil
  | part :: rest, covers =>
      have first := part.branch_negate_alike ctx masked (index :: pos) (index :: pos')
        (covers.child index fun path operand found => by simpa [operandInParts?] using found)
      .cons first (branchesFrom_negate_alike ctx masked pos pos' (index + 1) rest
        (covers.mono fun _ _ => operandInParts?_cons_of_rest))

end

/-! ## The same outcome -/

/-- Operands of a condition at two positions; errors count as the same if they
differ in an operator only. -/
def Cond.pairing (c : Cond) (pos pos' : Position) : Pairing where
  positions p p' := ∃ path operand, c.operandAt? path = some operand ∧
    p = path.reverse ++ pos ∧ p' = path.reverse ++ pos'
  positions_inj := by
    rintro _ _ _ _ ⟨path, _, _, rfl, rfl⟩ ⟨path', _, _, rfl, rfl⟩
    simp
  errors e e' := e.maskOperator = e'.maskOperator
  errors_refl _ := rfl

theorem Cond.covers_pairing (c : Cond) (pos pos' : Position) :
    (c.pairing pos pos').Covers pos pos' c.operandAt? :=
  fun path operand found => ⟨path, operand, found, rfl, rfl⟩

theorem Renumbering.instr_zero : Renumbering.instr ⟨0, 0, [], []⟩ = id := by
  funext instr
  cases instr <;> rfl

namespace Twin

variable {pairing : Pairing} {s s' : State}

/-- A state is its own twin if it remembers the same at both positions. -/
theorem refl_of_memory (memory : ∀ {p p'}, pairing.positions p p' → s.probed[p]? = s.probed[p']?) :
    Twin pairing ⟨0, 0, [], []⟩ s s where
  frame_eq := by rw [Renumbering.frame, Renumbering.shapes_self (by simp)]
  base_le := Nat.zero_le _
  nextLabel_eq := rfl
  code_eq := ⟨s.code, rfl, by rw [Renumbering.instr_zero, List.map_id, List.nil_append]⟩
  memory_eq := memory
  depth_iff := fun _ => Iff.rfl

/-- Twins are equal but for their memory if labels keep their numbers. -/
theorem eq_of_zero (twin : Twin pairing ⟨0, 0, [], []⟩ s s') :
    s'.frame = s.frame ∧ s'.output = s.output := by
  constructor
  · rw [twin.frame_eq, Renumbering.frame, Renumbering.shapes_self (by simp)]
  · rcases twin.code_eq with ⟨code, codeEq, codeEq'⟩
    have nextLabel : s'.output.nextLabel = s.output.nextLabel := twin.nextLabel_eq
    have instrs : s'.output.instrs = s.output.instrs := by
      rw [Renumbering.instr_zero, List.map_id, ← codeEq] at codeEq'
      exact Array.toList_inj.mp codeEq'
    rcases outputEq : s.output with ⟨instrs, next⟩
    rcases outputEq' : s'.output with ⟨instrs', next'⟩
    simp_all

end Twin

/-- Negating a condition is the same as compiling it for the other sense.  From
any state that remembers the same about the operands at both positions, in
particular nothing, both runs write the same instructions with the same labels
and end in the same frame, and both succeed or both fail with errors that differ
at most in the operator they name.  Negating twice gives the condition back. -/
theorem Cond.branch_negate (ctx : Context) (pos pos' : Position) (c : Cond) (target : Label)
    (s : State)
    (memory : ∀ path operand, c.operandAt? path = some operand →
      s.probed[path.reverse ++ pos]? = s.probed[path.reverse ++ pos']?) :
    (∀ sense, Agrees (fun e e' => e.maskOperator = e'.maskOperator)
      (fun t t' => t'.frame = t.frame ∧ t'.output = t.output)
      (c.branch ctx pos sense target s) (c.negate.branch ctx pos' (!sense) target s)) ∧
    c.negate.negate = c := by
  constructor
  · intro sense
    have twin : Twin (c.pairing pos pos') ⟨0, 0, [], []⟩ s s := by
      apply Twin.refl_of_memory
      rintro _ _ ⟨path, operand, found, rfl, rfl⟩
      exact memory path operand found
    have tolerates : Twin.Tolerates (c.pairing pos pos') ⟨0, 0, [], []⟩ :=
      fun _ _ _ _ => (c.pairing pos pos').errors_refl _
    have alike := c.branch_negate_alike ctx id pos pos' (c.covers_pairing pos pos') sense
    rw [Bool.xor_true] at alike
    have parallel : Parallel ctx (c.pairing pos pos') true [(target, target)] []
        (c.branch ctx pos sense target) (c.negate.branch ctx pos' (!sense) target) [] :=
      alike (by simp) true
    exact (parallel.agrees tolerates (by simp [Renumbering.Relates, Renumbering.label]) twin).1.mono
      Twin.eq_of_zero
  · exact c.negate_negate

namespace Sample

open Fragment

/-- `name.equals("if") && (flag || x < 1) && name != null` -/
def named : Cond :=
  .conj
    [nameEquals "if",
      .disj [.truth (loadNamed "flag"), .relation .lt (loadNamed "x") (int 1)],
      .nonNull (loadNamed "name")]

def namedContext : Context :=
  { classContext "Demo" {} with isStatic := true, result := .void }

/-- A state inside an operation, with variables for the condition and the type of
a fragment elsewhere. -/
def namedState : State where
  frame := { locals :=
    { types := #[some .string, some .boolean, some .double, some .double]
      names := #[some "name", some "flag", some "x", none] } }
  output := { nextLabel := 1 }
  probed := (∅ : ProbeMemory).insert [9] .int
  depth := 1

theorem named_branch_negate :
    (∀ path operand, named.operandAt? path = some operand →
      namedState.probed[path.reverse ++ [1]]? = namedState.probed[path.reverse ++ [2]]?) ∧
    (∀ sense, Agrees (fun e e' => e.maskOperator = e'.maskOperator)
      (fun t t' => t'.frame = t.frame ∧ t'.output = t.output)
      (named.branch namedContext [1] sense ⟨0⟩ namedState)
      (named.negate.branch namedContext [2] (!sense) ⟨0⟩ namedState)) ∧
    named.negate.negate = named := by
  have elsewhere (path : List Nat) (last : Nat) (differs : last ≠ 9) :
      namedState.probed[path.reverse ++ [last]]? = none := by
    have apart : [9] ≠ path.reverse ++ [last] := by
      intro same
      have lastEq : 9 = last := by simpa using congrArg List.getLast? same
      exact differs lastEq.symm
    simp [namedState, apart]
  have memory : ∀ path operand, named.operandAt? path = some operand →
      namedState.probed[path.reverse ++ [1]]? = namedState.probed[path.reverse ++ [2]]? := by
    intro path _ _
    rw [elsewhere path 1 (by decide), elsewhere path 2 (by decide)]
  exact ⟨memory, Cond.branch_negate namedContext [1] [2] named ⟨0⟩ namedState memory⟩

end Sample

end JvmAssembler
