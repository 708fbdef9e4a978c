import Mathlib
import JvmAssembler.Error

/-!
# Sequences of actions

Operations on frames, additions to constant pools and actions of the generator
are alike in that they act on a state and return a value or fail.  A sequence
succeeds exactly if its parts do, one after the other, and it fails in its first
part or after it.
-/

namespace JvmAssembler

section

variable {σ α β : Type} {action : EStateM Error σ α} {next : α → EStateM Error σ β}
variable {s t : σ} {e : Error}

/-- What follows a successful action starts where it ended. -/
theorem bind_apply_of_ok {a : α} (run : action s = .ok a t) : (action >>= next) s = next a t := by
  change EStateM.bind action next s = _
  rw [EStateM.bind, run]

/-- Nothing follows an action that fails. -/
theorem bind_apply_of_error (run : action s = .error e t) :
    (action >>= next) s = .error e t := by
  change EStateM.bind action next s = _
  rw [EStateM.bind, run]

/-- A sequence succeeds exactly if its parts do, one after the other. -/
theorem bind_eq_ok {b : β} :
    (action >>= next) s = .ok b t ↔ ∃ a u, action s = .ok a u ∧ next a u = .ok b t := by
  cases ran : action s with
  | ok a u => simp [bind_apply_of_ok ran]
  | error e u => simp [bind_apply_of_error ran]

/-- A sequence fails in its first part or after it. -/
theorem bind_eq_error (run : (action >>= next) s = .error e t) :
    action s = .error e t ∨ ∃ a u, action s = .ok a u ∧ next a u = .error e t := by
  cases ran : action s with
  | ok a u =>
      rw [bind_apply_of_ok ran] at run
      exact .inr ⟨a, u, rfl, run⟩
  | error e' u =>
      rw [bind_apply_of_error ran] at run
      obtain ⟨rfl, rfl⟩ := EStateM.Result.error.inj run
      exact .inl rfl

theorem pure_eq_ok {a b : α} : (pure a : EStateM Error σ α) s = .ok b t ↔ a = b ∧ s = t := by
  change EStateM.Result.ok a s = .ok b t ↔ _
  simp

theorem throw_eq_ok {b : α} : (throw e : EStateM Error σ α) s = .ok b t ↔ False := by
  change EStateM.Result.error e s = .ok b t ↔ _
  simp

/-- A check that failed would have ended the sequence. -/
theorem check_eq_ok {condition : Prop} [Decidable condition] {next : Unit → EStateM Error σ β}
    {b : β} :
    (if condition then (throw e : EStateM Error σ Unit) >>= next else next ()) s = .ok b t ↔
      ¬condition ∧ next () s = .ok b t := by
  by_cases holds : condition
  · simp [holds, bind_eq_ok, throw_eq_ok]
  · simp [holds]

end

end JvmAssembler
