import Mathlib
import JvmAssembler.Proofs.Advance

/-!
# As many names as types

Generation leaves a table of local variables with as many names as types where
it finds one, whether it succeeds or fails.  This follows step by step: the only
operations that change the table are quiet ones, which keep the two numbers
equal.
-/

namespace JvmAssembler

namespace Gen

variable {α β : Type} {ctx : Context} {s : State}

/-- The state in which a run ends, whether it succeeds or fails. -/
def stateAfter (x : Gen α) (s : State) : State :=
  match x s with
  | .ok _ t | .error _ t => t

theorem stateAfter_bind (x : Gen α) (f : α → Gen β) (s : State) :
    stateAfter (x >>= f) s =
      match x s with
      | .ok a t => stateAfter (f a) t
      | .error _ t => t := by
  unfold stateAfter
  cases run : x s with
  | ok a t => rw [bind_apply_of_ok run]
  | error e t => rw [bind_apply_of_error run]

theorem stateAfter_of_ok {x : Gen α} {a : α} {t : State} (run : x s = .ok a t) :
    stateAfter x s = t := by
  rw [stateAfter, run]

theorem stateAfter_of_error {x : Gen α} {e : Error} {t : State} (run : x s = .error e t) :
    stateAfter x s = t := by
  rw [stateAfter, run]

/-- The action leaves as many names as types where it finds as many. -/
def KeepsMatched (x : Gen α) : Prop :=
  ∀ ⦃s⦄, s.frame.locals.Matched → (stateAfter x s).frame.locals.Matched

namespace KeepsMatched

theorem of_ok {x : Gen α} {a : α} {t : State} (keeps : KeepsMatched x) (run : x s = .ok a t)
    (matched : s.frame.locals.Matched) : t.frame.locals.Matched :=
  stateAfter_of_ok run ▸ keeps matched

theorem of_error {x : Gen α} {e : Error} {t : State} (keeps : KeepsMatched x)
    (run : x s = .error e t) (matched : s.frame.locals.Matched) : t.frame.locals.Matched :=
  stateAfter_of_error run ▸ keeps matched

theorem of_same {x : Gen α} (same : ∀ s, (stateAfter x s).frame.locals = s.frame.locals) :
    KeepsMatched x := by
  intro s matched
  rwa [same s]

theorem bind {x : Gen α} {f : α → Gen β} (first : KeepsMatched x)
    (second : ∀ a, KeepsMatched (f a)) : KeepsMatched (x >>= f) := by
  intro s matched
  rw [stateAfter_bind]
  cases run : x s with
  | ok a t => exact second a (first.of_ok run matched)
  | error e t => exact first.of_error run matched

theorem onFrame {op : FrameOp α}
    (keeps : ∀ f, f.locals.Matched → (FrameOp.leaves op f).locals.Matched) :
    KeepsMatched (onFrame op) := by
  intro s matched
  have frame : (stateAfter (Gen.onFrame op) s).frame = FrameOp.leaves op s.frame := by
    cases ran : op s.frame <;> simp [stateAfter, FrameOp.leaves, Gen.onFrame, ran]
  rw [frame]
  exact keeps s.frame matched

theorem merge (label : Label) (shape : List JType) (f : Frame) :
    (FrameOp.leaves (Frame.merge label shape) f).locals = f.locals := by
  unfold FrameOp.leaves Frame.merge
  cases f.shapes.lookup label with
  | none => rfl
  | some expected => by_cases same : expected = shape <;> simp [same]

theorem write (instr : Instr) : KeepsMatched (write ctx instr) :=
  of_same fun _ => rfl

theorem markDead : KeepsMatched (Gen.onFrame Frame.markDead) :=
  of_same fun _ => rfl

theorem emit (instr : Instr) : KeepsMatched (emit ctx instr) := by
  refine bind (write instr) fun _ => ?_
  cases instr with
  | op code =>
      dsimp only
      split
      · exact markDead
      · exact of_same fun _ => rfl
  | _ => exact of_same fun _ => rfl

theorem jump (code : Opcode) (target : Label) : KeepsMatched (jump ctx code target) := by
  have recorded : KeepsMatched (Gen.onFrame (Frame.jumpTo target)) := onFrame fun f matched => by
    have same := merge target f.stack f
    exact same ▸ matched
  refine bind recorded fun _ => bind (write _) fun _ => ?_
  split
  · exact markDead
  · exact of_same fun _ => rfl

theorem place (label : Label) : KeepsMatched (place ctx label) := by
  have entered : KeepsMatched (Gen.onFrame (Frame.place label)) := onFrame fun f matched => by
    unfold FrameOp.leaves Frame.place
    cases f.alive with
    | true =>
        have same := merge label f.stack f
        exact same ▸ matched
    | false => cases f.shapes.lookup label <;> exact matched
  exact bind entered fun _ => write _

theorem value {x : Gen Unit} (keeps : KeepsMatched x) : KeepsMatched (value x) := by
  have read : KeepsMatched (get : Gen State) := of_same fun _ => rfl
  refine bind read fun before => bind keeps fun _ => bind read fun after => ?_
  dsimp only
  split
  · exact of_same fun _ => rfl
  · exact onFrame Frame.Quiet.peek.matched

theorem operation {x : Gen Unit} (name : String) (keeps : KeepsMatched x) :
    KeepsMatched (operation name x) := by
  intro s matched
  rw [stateAfter, operation_apply]
  cases s.frame.alive with
  | false => exact matched
  | true =>
      have inner := @keeps { s with depth := s.depth + 1 } matched
      unfold stateAfter at inner
      cases run : x { s with depth := s.depth + 1 } with
      | ok a t => simpa [run, State.leave] using inner
      | error e t => simpa [run, State.leave] using inner

theorem probe (operand : Operand) : KeepsMatched (probe ctx operand) := by
  refine of_same fun s => ?_
  unfold stateAfter Gen.probe
  cases ctx.probing with
  | remembered =>
      dsimp only [probeRemembered]
      cases s.probed[operand.position]? with
      | some ty => rfl
      | none => cases Gen.value operand.code s.dryRun <;> rfl
  | fresh =>
      dsimp only [probeFresh]
      cases Gen.value operand.code s.dryRun <;> rfl

end KeepsMatched

theorem Parallel.keepsMatched {pairing : Pairing} {live : Bool}
    {heads pending after : List (Label × Label)} {x x' : Gen α}
    (parallel : Parallel ctx pairing live heads pending x x' after) : KeepsMatched x := by
  induction parallel with
  | pure a => exact .of_same fun _ => rfl
  | throw _ => exact .of_same fun _ => rfl
  | bind _ _ ihFirst ihRest => exact .bind ihFirst ihRest
  | onFrame quiet => exact .onFrame quiet.matched
  | emit _ => exact .emit _
  | newLabel _ ih => exact .bind (.of_same fun _ => rfl) fun label => ih label label
  | jump code _ => exact .jump code _
  | place _ => exact .place _
  | head _ _ ih => exact .bind (.place _) fun _ => ih
  | value _ ih => exact .value ih
  | operation name _ ih => exact .operation name ih
  | probe _ _ _ => exact .probe _

theorem bindParams_keepsMatched (params : List (String × JType)) :
    KeepsMatched (bindParams params) := by
  induction params with
  | nil => exact .of_same fun _ => rfl
  | cons param rest ih =>
      exact .bind (.onFrame (Frame.Quiet.addLocal (some param.1) param.2).matched) fun _ => ih

end Gen

open Gen

variable (ctx : Context) (pos : Position)

theorem Op.body_keepsMatched (op : Op) : KeepsMatched (op.body ctx pos) :=
  (op.body_parallel ctx (.below pos) pos pos (Pairing.below_covers List.suffix_rfl _) []
    []).keepsMatched

theorem codeFrom_keepsMatched (index : Nat) (ops : List Op) :
    KeepsMatched (codeFrom ctx pos index ops) :=
  (codeFrom_alike ctx (.below pos) pos pos index ops (Pairing.below_covers List.suffix_rfl _) false []
    []).keepsMatched

theorem Cond.branch_keepsMatched (c : Cond) (sense : Bool) (target : Label) :
    KeepsMatched (c.branch ctx pos sense target) := by
  have alike := c.branch_alike ctx (.below pos) pos pos (Pairing.below_covers List.suffix_rfl _) sense
  have parallel := alike (show (target, target) ∈ [(target, target)] ++ [] by simp) false
  exact parallel.keepsMatched

end JvmAssembler
