import Mathlib
import JvmAssembler.Proofs.OperandFlow
import JvmAssembler.Proofs.Steps

/-!
# Value chains do not look below

What a value chain leaves on the stack does not depend on what lay there before:
if it is generated on one stack it can be generated on any other, where the same
local variables are known, and leaves a value of the same type.

An action lifts from a height to another if it succeeds on every stack that has
that many values of its own on top of whatever lies below, as soon as it
succeeds on one.  Operations on the value on top need one value of their own;
this they have, because such operations never leave more values than they find,
and a value chain leaves one.  Operands are taken to be probed anew each time.
-/

namespace JvmAssembler

/-- The context in which operands are probed anew each time. -/
abbrev Context.anew (ctx : Context) : Context :=
  { ctx with probing := .fresh }

namespace Frame

variable {α : Type} {low low' : List JType} {n m : Nat}

/-- The same values on top of what may differ. -/
def SameOn (low low' stack stack' : List JType) : Prop :=
  ∃ own, stack = own ++ low ∧ stack' = own ++ low'

/-- Two frames with the same values, at least `height` of them, above what may
differ; ways into labels are recorded likewise. -/
structure Above (low low' : List JType) (height : Nat) (f f' : Frame) : Prop where
  stack : ∃ own, height ≤ own.length ∧ f.stack = own ++ low ∧ f'.stack = own ++ low'
  locals : f'.locals = f.locals
  alive : f'.alive = f.alive
  shapes : ∀ label,
    Option.Rel (SameOn low low') (f.shapes.lookup label) (f'.shapes.lookup label)

/-- An operation that succeeds with the same result whatever lies below `n`
values on the stack, and then leaves at least `m` values above that. -/
def Lifts (n m : Nat) (op : FrameOp α) : Prop :=
  ∀ ⦃low low' f f' a g⦄, Above low low' n f f' → op f = .ok a g →
    ∃ g', op f' = .ok a g' ∧ Above low low' m g g' ∧ g.scopes = f.scopes ∧ g'.scopes = f'.scopes

theorem Above.mono {f f' : Frame} (above : Above low low' n f f') (fewer : m ≤ n) :
    Above low low' m f f' where
  stack := by
    obtain ⟨own, enough, same⟩ := above.stack
    exact ⟨own, fewer.trans enough, same⟩
  locals := above.locals
  alive := above.alive
  shapes := above.shapes

/-- Nothing is recorded for a label in both frames. -/
theorem Above.unknown {f f' : Frame} {label : Label} (above : Above low low' n f f')
    (unknown : f.shapes.lookup label = none) : f'.shapes.lookup label = none := by
  have same := above.shapes label
  rw [unknown] at same
  cases found : f'.shapes.lookup label with
  | none => rfl
  | some shape =>
      rw [found] at same
      cases same

/-- What is recorded for a label is the same above what may differ. -/
theorem Above.known {f f' : Frame} {label : Label} {shape : List JType}
    (above : Above low low' n f f') (known : f.shapes.lookup label = some shape) :
    ∃ own, shape = own ++ low ∧ f'.shapes.lookup label = some (own ++ low') := by
  have same := above.shapes label
  rw [known] at same
  cases found : f'.shapes.lookup label with
  | none =>
      rw [found] at same
      cases same
  | some shape' =>
      rw [found] at same
      obtain ⟨⟨own, rfl, rfl⟩⟩ := same
      exact ⟨own, rfl, rfl⟩

namespace Lifts

theorem push (ty : JType) : Lifts n (n + 1) (push ty) := by
  intro low low' f f' a g above run
  obtain ⟨own, enough, stack, stack'⟩ := above.stack
  obtain ⟨value, rfl⟩ := push_eq_ok.mp run
  refine ⟨_, push_eq_ok.mpr ⟨value, rfl⟩, ⟨⟨ty :: own, by simpa using enough, ?_, ?_⟩,
    above.locals, above.alive, above.shapes⟩, rfl, rfl⟩
  · simp [pushed, stack]
  · simp [pushed, stack']

theorem popN (k : Nat) : Lifts (n + k) n (popN k) := by
  intro low low' f f' a g above run
  obtain ⟨own, enough, stack, stack'⟩ := above.stack
  have fits : k ≤ own.length := by omega
  obtain ⟨-, rfl, rfl⟩ := popN_eq_ok.mp run
  have returned : (f.stack.take k).reverse = (f'.stack.take k).reverse := by
    rw [stack, stack', List.take_append_of_le_length fits, List.take_append_of_le_length fits]
  have enough' : k ≤ f'.stack.length := by
    rw [stack', List.length_append]
    omega
  refine ⟨_, popN_eq_ok.mpr ⟨enough', returned, rfl⟩, ⟨⟨own.drop k, ?_, ?_, ?_⟩, above.locals,
    above.alive, above.shapes⟩, rfl, rfl⟩
  · rw [List.length_drop]
    omega
  · simp only [dropped, stack, List.drop_append_of_le_length fits]
  · simp only [dropped, stack', List.drop_append_of_le_length fits]

theorem pop : Lifts (n + 1) n pop := by
  intro low low' f f' a g above run
  obtain ⟨own, enough, stack, stack'⟩ := above.stack
  cases own with
  | nil => simp at enough
  | cons ty own =>
      simp only [Frame.pop, stack, stack', List.cons_append] at run ⊢
      cases run
      exact ⟨_, rfl, ⟨⟨own, by simpa using enough, rfl, rfl⟩, above.locals, above.alive,
        above.shapes⟩, rfl, rfl⟩

theorem peek : Lifts (n + 1) (n + 1) peek := by
  intro low low' f f' a g above run
  obtain ⟨own, enough, stack, stack'⟩ := above.stack
  cases own with
  | nil => simp at enough
  | cons ty own =>
      simp only [Frame.peek, stack, stack', List.cons_append] at run ⊢
      cases run
      exact ⟨_, rfl, above, rfl, rfl⟩

theorem bind {β : Type} {k : Nat} {op : FrameOp α} {next : α → FrameOp β} (first : Lifts n m op)
    (second : ∀ a, Lifts m k (next a)) : Lifts n k (op >>= next) := by
  intro low low' f f' b g above run
  obtain ⟨a, h, ran, rest⟩ := bind_eq_ok.mp run
  obtain ⟨h', ran', above', scopes, scopes'⟩ := first above ran
  obtain ⟨g', rest', above'', scopes₂, scopes₂'⟩ := second a above' rest
  exact ⟨g', bind_eq_ok.mpr ⟨a, h', ran', rest'⟩, above'', scopes₂.trans scopes,
    scopes₂'.trans scopes'⟩

theorem replaceTop (ty : JType) : Lifts (n + 1) (n + 1) (replaceTop ty) :=
  pop.bind fun _ => push ty

/-- Looking at local variables. -/
theorem ofLocals {op : FrameOp α}
    (looks : ∀ f a g, op f = .ok a g → g = f ∧ ∀ f', f'.locals = f.locals → op f' = .ok a f') :
    Lifts n n op := by
  intro low low' f f' a g above run
  obtain ⟨rfl, same⟩ := looks f a g run
  exact ⟨f', same f' above.locals, above, rfl, rfl⟩

theorem resolveIndex (name : String) : Lifts n n (resolveIndex name) := by
  refine ofLocals fun f a g run => ?_
  obtain ⟨rfl, found⟩ := resolveIndex_eq_ok.mp run
  refine ⟨rfl, fun f' same => resolveIndex_eq_ok.mpr ⟨rfl, ?_⟩⟩
  simpa only [localCount, same] using found

theorem localType (slot : Slot) : Lifts n n (localType slot) := by
  refine ofLocals fun f a g run => ?_
  obtain ⟨typed, rfl⟩ := localType_eq_ok.mp run
  refine ⟨rfl, fun f' same => localType_eq_ok.mpr ⟨?_, rfl⟩⟩
  rwa [slotType?, same]

theorem markDead : Lifts n n markDead := by
  intro low low' f f' a g above run
  cases run
  exact ⟨_, rfl, ⟨above.stack, above.locals, rfl, above.shapes⟩, rfl, rfl⟩

theorem jumpTo (label : Label) : Lifts n n (jumpTo label) := by
  intro low low' f f' a g above run
  obtain ⟨own, enough, stack, stack'⟩ := above.stack
  obtain ⟨records, shapes, rfl⟩ := merge_eq_ok run
  have agrees : ∀ known, f'.shapes.lookup label = some known → known = f'.stack := by
    intro known found
    cases recorded : f.shapes.lookup label with
    | none => simp [above.unknown recorded] at found
    | some shape =>
        obtain ⟨other, rfl, found'⟩ := above.known recorded
        have same : other = own :=
          List.append_cancel_right ((records.agrees _ recorded).trans stack)
        rw [stack', ← same]
        exact Option.some.inj (found.symm.trans found')
  obtain ⟨g', ran⟩ := merge_of_agrees agrees
  obtain ⟨records', shapes', rfl⟩ := merge_eq_ok ran
  refine ⟨_, ran, ⟨⟨own, enough, stack, stack'⟩, above.locals, above.alive, fun other => ?_⟩,
    rfl, rfl⟩
  rw [records.lookup_eq, records'.lookup_eq]
  split
  · exact .some ⟨own, stack, stack'⟩
  · exact above.shapes other

theorem place (label : Label) : Lifts n 0 (place label) := by
  intro low low' f f' a g above run
  rcases place_eq_ok.mp run with ⟨alive, merged⟩ | ⟨dead, unknown, rfl⟩ | ⟨dead, shape, known, rfl⟩
  · obtain ⟨g', ran, above', kept⟩ := jumpTo label above merged
    exact ⟨g', place_eq_ok.mpr (.inl ⟨above.alive.trans alive, ran⟩),
      above'.mono (Nat.zero_le n), kept⟩
  · exact ⟨f', place_eq_ok.mpr (.inr (.inl ⟨above.alive.trans dead, above.unknown unknown, rfl⟩)),
      above.mono (Nat.zero_le n), rfl, rfl⟩
  · obtain ⟨own, rfl, known'⟩ := above.known known
    exact ⟨_, place_eq_ok.mpr (.inr (.inr ⟨above.alive.trans dead, own ++ low', known', rfl⟩)),
      ⟨⟨own, Nat.zero_le _, rfl, rfl⟩, above.locals, rfl, above.shapes⟩, rfl, rfl⟩

end Lifts

end Frame

/-- Two states with the same values, at least `height` of them, above what may
differ. -/
structure State.Above (low low' : List JType) (height : Nat) (s s' : State) : Prop where
  frame : Frame.Above low low' height s.frame s'.frame
  nextLabel : s'.output.nextLabel = s.output.nextLabel

namespace Gen

variable {α β : Type} {n m k : Nat} {ctx : Context}

/-! ## Operations on the value on top leave no more values than they find -/

section Sizes

variable {s t u : State} {code : Gen Unit}

theorem length_of_coerced {ty target : JType} (valued : value code s = .ok ty t)
    (coerced : coerceTop ctx target t = .ok () u) :
    u.frame.stack.length = s.frame.stack.length + 1 := by
  obtain ⟨-, rest, stack, counted⟩ := value_eq_ok.mp valued
  obtain ⟨source, rest', stack', -, emits⟩ := coerceTop_emits coerced
  obtain ⟨-, rfl⟩ := List.cons.inj (stack.symm.trans stack')
  simp [emits.stack_eq, counted]

theorem length_of_probeAll {args : List Operand} {types : List JType}
    (run : probeAll ctx args s = .ok types t) : t.frame = s.frame ∧ types.length = args.length := by
  induction args generalizing s types with
  | nil =>
      obtain ⟨rfl, rfl⟩ := pure_eq_ok.mp run
      exact ⟨rfl, rfl⟩
  | cons arg rest ih =>
      obtain ⟨ty, u, probed, run⟩ := bind_eq_ok.mp run
      obtain ⟨others, v, ran, returned⟩ := bind_eq_ok.mp run
      obtain ⟨rfl, rfl⟩ := pure_eq_ok.mp returned
      obtain ⟨frame, counted⟩ := ih ran
      exact ⟨frame.trans (probe_ok probed).1, by simp [counted]⟩

theorem length_le_of_arguments {args : List Operand} {params : List JType}
    (run : arguments ctx args params s = .ok () t) :
    t.frame.stack.length ≤ s.frame.stack.length + params.length := by
  induction args generalizing s params with
  | nil =>
      obtain ⟨-, rfl⟩ := pure_eq_ok.mp run
      exact Nat.le_add_right _ _
  | cons arg rest ih =>
      cases params with
      | nil =>
          obtain ⟨-, rfl⟩ := pure_eq_ok.mp run
          exact Nat.le_add_right _ _
      | cons param params =>
          obtain ⟨ty, u, valued, run⟩ := bind_eq_ok.mp run
          obtain ⟨_, v, coerced, others⟩ := bind_eq_ok.mp run
          have first := length_of_coerced valued coerced
          have rest := ih others
          simp only [List.length_cons]
          omega

theorem length_le_of_finishCall {op : Opcode} {method : Member}
    (run : finishCall ctx op method true s = .ok () t) :
    t.frame.stack.length + method.params.length ≤ s.frame.stack.length := by
  obtain ⟨_, u, popping, run⟩ := bind_eq_ok.mp run
  obtain ⟨_, v, emitted, run⟩ := bind_eq_ok.mp run
  obtain ⟨fits, popped⟩ := popN_emits popping
  have wrote := emit_emits rfl emitted
  have left : v.frame.stack.length + (method.params.length + 1) = s.frame.stack.length := by
    simp only [wrote.stack_eq, popped.stack_eq, List.length_drop]
    simp only [if_true] at fits ⊢
    omega
  split at run
  · obtain ⟨pushed, -⟩ := push_emits run
    simp only [pushed.stack_eq, List.length_cons]
    omega
  · obtain ⟨-, rfl⟩ := pure_eq_ok.mp run
    omega

theorem length_le_of_invoke {name : String} {args : List Operand}
    (run : invoke ctx name args s = .ok () t) :
    t.frame.stack.length ≤ s.frame.stack.length := by
  obtain ⟨owner, _, peeked, run⟩ := bind_eq_ok.mp run
  obtain ⟨-, -, rfl⟩ := receiver_eq_ok peeked
  obtain ⟨types, u, probed, run⟩ := bind_eq_ok.mp run
  obtain ⟨method, _, found, run⟩ := bind_eq_ok.mp run
  obtain ⟨-, rfl⟩ := resolveMethod_eq_ok found
  obtain ⟨-, run⟩ := check_eq_ok.mp run
  obtain ⟨_, v, passed, finished⟩ := bind_eq_ok.mp run
  have before := length_le_of_arguments passed
  have after := length_le_of_finishCall finished
  rw [(length_of_probeAll probed).1] at before
  omega

/-- Two values are replaced by one. -/
theorem length_of_combined {op : Opcode} {ty : JType} {types : List JType} {v w : State}
    (plain : (Instr.op op).isPlain = true) (popping : popN 2 s = .ok types u)
    (emitted : emitOp ctx op u = .ok () v) (pushing : push ty v = .ok () w) :
    w.frame.stack.length + 1 = s.frame.stack.length := by
  obtain ⟨fits, popped⟩ := popN_emits popping
  have wrote := emit_emits plain emitted
  obtain ⟨pushed, -⟩ := push_emits pushing
  simp only [pushed.stack_eq, wrote.stack_eq, popped.stack_eq, List.length_cons, List.length_drop]
  omega

theorem length_of_arrayLoad (run : arrayLoad ctx code s = .ok () t) :
    t.frame.stack.length = s.frame.stack.length := by
  obtain ⟨elem, _, isArray, run⟩ := bind_eq_ok.mp run
  obtain ⟨rest, -, rfl⟩ := arrayElement_eq_ok isArray
  obtain ⟨_, s₁, valued, run⟩ := bind_eq_ok.mp run
  obtain ⟨_, s₂, coerced, run⟩ := bind_eq_ok.mp run
  obtain ⟨_, s₃, popping, run⟩ := bind_eq_ok.mp run
  obtain ⟨_, s₄, emitted, pushing⟩ := bind_eq_ok.mp run
  have index := length_of_coerced valued coerced
  have plain : (Instr.op (.arrayLoadOf elem)).isPlain = true := by
    simpa [Instr.isPlain] using Opcode.arrayLoadOf_continues elem
  have loaded := length_of_combined plain popping emitted pushing
  omega

theorem length_of_arith {op : ArithOp} {right : Operand}
    (run : arith ctx op right s = .ok () t) : t.frame.stack.length = s.frame.stack.length := by
  obtain ⟨left, _, peeked, run⟩ := bind_eq_ok.mp run
  obtain ⟨-, rfl⟩ := peek_eq_ok.mp peeked
  obtain ⟨rightType, s₁, probed, run⟩ := bind_eq_ok.mp run
  cases applicable : operandTypes? op left rightType with
  | none =>
      simp only [applicable] at run
      exact (throw_eq_ok.mp run).elim
  | some types =>
      simp only [applicable] at run
      obtain ⟨_, s₂, combined, run⟩ := bind_eq_ok.mp run
      obtain ⟨_, s₃, popping, run⟩ := bind_eq_ok.mp run
      obtain ⟨_, s₄, emitted, pushing⟩ := bind_eq_ok.mp run
      obtain ⟨_, v, converted, combined⟩ := bind_eq_ok.mp combined
      obtain ⟨_, w, valued, coerced⟩ := bind_eq_ok.mp combined
      obtain ⟨source, rest, stack, -, emits⟩ := coerceTop_emits converted
      have operand := length_of_coerced valued coerced
      have applied := length_of_combined (Instr.effect?_arith applicable).1 popping emitted pushing
      rw [(probe_ok probed).1] at stack
      simp only [emits.stack_eq, List.length_cons] at operand
      simp only [stack, List.length_cons]
      omega

end Sizes

/-! ## Runs that differ below -/

/-- What is left by two runs of an action from states that differ below. -/
structure Lifted (low low' : List JType) (height : Nat) (s s' t t' : State) : Prop where
  above : State.Above low low' height t t'
  scopes : t.frame.scopes = s.frame.scopes
  scopes' : t'.frame.scopes = s'.frame.scopes

/-- An action that succeeds with the same result whatever lies below `n` values
on the stack, and then leaves at least `m` values above that. -/
def Lifts (n m : Nat) (x : Gen α) : Prop :=
  ∀ ⦃low low' s s' a t⦄, State.Above low low' n s s' → x s = .ok a t →
    ∃ t', x s' = .ok a t' ∧ Lifted low low' m s s' t t'

/-- A fragment that leaves the same value on any stack. -/
def LiftsValue (code : Gen Unit) : Prop :=
  ∀ n, Lifts n (n + 1) (value code)

/-- A branch that does the same on any stack. -/
def LiftsBranch (branch : Branch) : Prop :=
  ∀ sense target, Lifts 0 0 (branch sense target)

namespace Lifts

theorem mono {x : Gen α} {n' m' : Nat} (lifts : Lifts n m x) (more : n ≤ n') (fewer : m' ≤ m) :
    Lifts n' m' x := by
  intro low low' s s' a t above run
  obtain ⟨t', run', above', scopes, scopes'⟩ :=
    lifts ⟨above.frame.mono more, above.nextLabel⟩ run
  exact ⟨t', run', ⟨above'.frame.mono fewer, above'.nextLabel⟩, scopes, scopes'⟩

theorem ground {x : Gen α} (lifts : Lifts n m x) : Lifts n 0 x :=
  lifts.mono le_rfl (Nat.zero_le m)

theorem pure (a : α) : Lifts n n (pure a : Gen α) := by
  intro low low' s s' b t above run
  obtain ⟨rfl, rfl⟩ := pure_eq_ok.mp run
  exact ⟨s', rfl, above, rfl, rfl⟩

theorem throw (e : Error) : Lifts n m (throw e : Gen α) :=
  fun _ _ _ _ _ _ _ run => (throw_eq_ok.mp run).elim

theorem seq {x : Gen α} {f : α → Gen β} (first : Lifts n m x)
    (second : ∀ a, Returns x a → Lifts m k (f a)) : Lifts n k (x >>= f) := by
  intro low low' s s' b t above run
  obtain ⟨a, u, ran, rest⟩ := bind_eq_ok.mp run
  obtain ⟨u', ran', lifted⟩ := first above ran
  obtain ⟨t', rest', lifted'⟩ := second a ⟨s, u, ran⟩ lifted.above rest
  exact ⟨t', bind_eq_ok.mpr ⟨a, u', ran', rest'⟩, lifted'.above,
    lifted'.scopes.trans lifted.scopes, lifted'.scopes'.trans lifted.scopes'⟩

theorem bind {x : Gen α} {f : α → Gen β} (first : Lifts n m x)
    (second : ∀ a, Lifts m k (f a)) : Lifts n k (x >>= f) :=
  seq first fun a _ => second a

theorem ite {condition : Prop} [Decidable condition] {x y : Gen α} (first : Lifts n m x)
    (second : Lifts n m y) : Lifts n m (if condition then x else y) := by
  split
  · exact first
  · exact second

theorem check {condition : Prop} [Decidable condition] {e : Error} {next : Unit → Gen α}
    (lifts : Lifts n m (next ())) :
    Lifts n m (if condition then (MonadExcept.throw e : Gen Unit) >>= next else next ()) :=
  ite (bind (throw e : Lifts n n _) fun _ => lifts) lifts

theorem whenAlive {x : Gen Unit} (lifts : Lifts n 0 x) : Lifts n 0 (whenAlive x) := by
  intro low low' s s' a t above run
  rcases whenAlive_eq_ok.mp run with ⟨alive, ran⟩ | ⟨dead, rfl⟩
  · obtain ⟨t', ran', lifted⟩ := lifts above ran
    exact ⟨t', whenAlive_eq_ok.mpr (.inl ⟨above.frame.alive.trans alive, ran'⟩), lifted⟩
  · exact ⟨s', whenAlive_eq_ok.mpr (.inr ⟨above.frame.alive.trans dead, rfl⟩),
      ⟨above.frame.mono (Nat.zero_le n), above.nextLabel⟩, rfl, rfl⟩

theorem onFrame {op : FrameOp α} (lifts : Frame.Lifts n m op) : Lifts n m (onFrame op) := by
  intro low low' s s' a t above run
  obtain ⟨frame, ran, rfl⟩ := onFrame_eq_ok.mp run
  obtain ⟨frame', ran', above', scopes, scopes'⟩ := lifts above.frame ran
  exact ⟨_, onFrame_eq_ok.mpr ⟨frame', ran', rfl⟩, ⟨above', above.nextLabel⟩, scopes, scopes'⟩

theorem push (ty : JType) : Lifts n (n + 1) (push ty) :=
  onFrame (.push ty)

theorem pop : Lifts (n + 1) n pop :=
  onFrame .pop

theorem popN (k : Nat) : Lifts (n + k) n (popN k) :=
  onFrame (.popN k)

theorem peek : Lifts (n + 1) (n + 1) peek :=
  onFrame .peek

theorem write (instr : Instr) : Lifts n n (write ctx instr) := by
  intro low low' s s' a t above run
  cases run
  exact ⟨_, rfl, ⟨above.frame, above.nextLabel⟩, rfl, rfl⟩

theorem emit (instr : Instr) : Lifts n n (emit ctx instr) := by
  refine bind (write instr) fun _ => ?_
  cases instr with
  | op code => exact ite (onFrame .markDead) (pure ())
  | _ => exact pure ()

theorem emitAll (code : List Instr) : Lifts n n (emitAll ctx code) := by
  induction code with
  | nil => exact pure ()
  | cons instr rest ih => exact bind (emit instr) fun _ => ih

theorem newLabel : Lifts n n newLabel := by
  intro low low' s s' a t above run
  obtain ⟨rfl, rfl⟩ := newLabel_eq_ok.mp run
  exact ⟨_, newLabel_eq_ok.mpr ⟨by rw [above.nextLabel], rfl⟩,
    ⟨above.frame, by simp [above.nextLabel]⟩, rfl, rfl⟩

theorem jump (code : Opcode) (target : Label) : Lifts n n (jump ctx code target) :=
  bind (onFrame (.jumpTo target)) fun _ => bind (write _) fun _ =>
    ite (onFrame .markDead) (pure ())

theorem place (label : Label) : Lifts n 0 (place ctx label) :=
  bind (onFrame (.place label)) fun _ => write _

theorem inScope {x : Gen Unit} (lifts : Lifts n m x) : Lifts n m (inScope x) := by
  intro low low' s s' a t above run
  obtain ⟨u, start, rest, ran, scopes, rfl⟩ := inScope_eq_ok.mp run
  have entering : State.Above low low' n s.entered s'.entered :=
    ⟨⟨above.frame.stack, above.frame.locals, above.frame.alive, above.frame.shapes⟩,
      above.nextLabel⟩
  obtain ⟨u', ran', lifted⟩ := lifts entering ran
  obtain ⟨rfl, rfl⟩ := List.cons.inj (scopes.symm.trans lifted.scopes)
  have locals : u'.frame.locals.take s'.frame.locals.size =
      u.frame.locals.take s.frame.locals.size := by
    rw [lifted.above.frame.locals, above.frame.locals]
  exact ⟨_, inScope_eq_ok.mpr ⟨u', _, _, ran', lifted.scopes', rfl⟩,
    ⟨⟨lifted.above.frame.stack, locals, lifted.above.frame.alive, lifted.above.frame.shapes⟩,
      lifted.above.nextLabel⟩, rfl, rfl⟩

theorem operation {x : Gen Unit} (name : String) (lifts : Lifts n m x) :
    Lifts n m (operation name x) := by
  intro low low' s s' a t above run
  obtain ⟨alive, u, ran, rfl⟩ := operation_eq_ok.mp run
  have entering : State.Above low low' n { s with depth := s.depth + 1 }
      { s' with depth := s'.depth + 1 } := ⟨above.frame, above.nextLabel⟩
  obtain ⟨u', ran', lifted⟩ := lifts entering ran
  exact ⟨_, operation_eq_ok.mpr ⟨above.frame.alive.trans alive, u', ran', rfl⟩,
    ⟨lifted.above.frame, lifted.above.nextLabel⟩, lifted.scopes, lifted.scopes'⟩

/-- A dry run has the whole stack below it. -/
theorem value_dryRun {code : Gen Unit} {ty : JType} {s s' t : State} (lifts : LiftsValue code)
    (locals : s'.frame.locals = s.frame.locals) (alive : s'.frame.alive = s.frame.alive)
    (run : value code s.dryRun = .ok ty t) : ∃ t', value code s'.dryRun = .ok ty t' := by
  have starting : State.Above s.frame.stack s'.frame.stack 0 s.dryRun s'.dryRun :=
    ⟨⟨⟨[], Nat.zero_le _, rfl, rfl⟩, locals, alive, fun _ => .none⟩, rfl⟩
  obtain ⟨t', run', -⟩ := lifts 0 starting run
  exact ⟨t', run'⟩

theorem probe {operand : Operand} (fresh : ctx.probing = .fresh) (lifts : LiftsValue operand.code) :
    Lifts n n (probe ctx operand) := by
  intro low low' s s' a t above run
  unfold Gen.probe at run ⊢
  simp only [fresh, probeFresh] at run ⊢
  cases ran : value operand.code s.dryRun with
  | error e dry => simp [ran] at run
  | ok ty dry =>
      simp only [ran] at run
      cases run
      obtain ⟨dry', ran'⟩ := value_dryRun lifts above.frame.locals above.frame.alive ran
      simp only [ran']
      exact ⟨_, rfl, ⟨above.frame, above.nextLabel⟩, rfl, rfl⟩

/-! ## Conversions, constants and members -/

theorem convertTop (source target : JType) :
    Lifts (n + 1) (n + 1) (convertTop ctx source target (conversion ctx source target)) := by
  rw [convertTop_conversion]
  exact ite (pure ()) (ite (throw _) (bind (emitAll _) fun _ => onFrame (.replaceTop target)))

theorem coerceTop (target : JType) : Lifts (n + 1) (n + 1) (coerceTop ctx target) :=
  bind peek fun source => ite (convertTop source target) (throw _)

theorem castTop (target : JType) : Lifts (n + 1) (n + 1) (castTop ctx target) := by
  rw [castTop_eq]
  exact bind peek fun source => convertTop source target

theorem constant (literal : Literal) : Lifts n (n + 1) (constant ctx literal) :=
  bind (emit _) fun _ => push _

theorem source (code : Opcode) (ty : JType) : Lifts n (n + 1) (source ctx code ty) :=
  bind (emit _) fun _ => push ty

theorem receiverLoad : Lifts n (n + 1) (receiverLoad ctx) := by
  unfold Gen.receiverLoad
  exact check (bind (emit _) fun _ => push _)

theorem slotOf (ref : LocalRef) : Lifts n n (slotOf ref) := by
  cases ref with
  | named name => exact onFrame (.resolveIndex name)
  | slot index => exact pure index

theorem load (ref : LocalRef) : Lifts n (n + 1) (load ctx ref) :=
  bind (slotOf ref) fun slot => bind (onFrame (.localType slot)) fun ty =>
    bind (emit _) fun _ => push ty

theorem checkAccess (member : Member) : Lifts n n (checkAccess ctx member) :=
  ite (pure ()) (throw _)

theorem resolveField (owner : JType) (name : String) : Lifts n n (resolveField ctx owner name) := by
  unfold Gen.resolveField
  split
  · exact throw _
  · exact bind (checkAccess _) fun _ => pure _

theorem resolveMethod (owner : JType) (name : String) (args : List JType) (isConstructor : Bool) :
    Lifts n n (resolveMethod ctx owner name args isConstructor) := by
  unfold Gen.resolveMethod
  split
  · exact throw _
  · exact bind (checkAccess _) fun _ => pure _

theorem receiver (use : ReceiverUse) : Lifts (n + 1) (n + 1) (receiver use) :=
  bind peek fun _ => check (pure _)

theorem getStatic (owner : JType) (name : String) : Lifts n (n + 1) (getStatic ctx owner name) :=
  bind (bind (resolveField owner name) fun _ => ite (pure _) (throw _)) fun _ =>
    bind (emit _) fun _ => push _

theorem getField (name : String) : Lifts (n + 1) (n + 1) (getField ctx name) :=
  bind (bind (receiver _) fun owner => bind (resolveField owner name) fun _ =>
    ite (throw _) (pure _)) fun _ => bind pop fun _ => bind (emit _) fun _ => push _

/-! ## Calls -/

section Calls

variable {args : List Operand} (fresh : ctx.probing = .fresh)
variable (all : ∀ arg ∈ args, LiftsValue arg.code)

include all in
theorem arguments {params : List JType} (counted : params.length = args.length) :
    Lifts n (n + params.length) (arguments ctx args params) := by
  induction args generalizing n params with
  | nil =>
      obtain rfl := List.length_eq_zero_iff.mp counted
      exact pure ()
  | cons arg rest ih =>
      cases params with
      | nil => simp at counted
      | cons param params =>
          have others : Lifts (n + 1) (n + 1 + params.length) (Gen.arguments ctx rest params) :=
            ih (fun other mem => all other (by simp [mem])) (by simpa using counted)
          rw [List.length_cons, Nat.add_comm params.length, ← Nat.add_assoc]
          exact bind (all arg (by simp) n) fun _ => bind (coerceTop param) fun _ => others

theorem finishCall (code : Opcode) (method : Member) (hasReceiver : Bool) :
    Lifts (n + (method.params.length + if hasReceiver then 1 else 0)) n
      (finishCall ctx code method hasReceiver) :=
  bind (popN _) fun _ => bind (emit _) fun _ =>
    ite ((push _).mono le_rfl (Nat.le_succ n)) (pure ())

include fresh all

theorem probeAll : Lifts n n (probeAll ctx args) := by
  induction args with
  | nil => exact pure []
  | cons arg rest ih =>
      exact bind (probe fresh (all arg (by simp))) fun _ =>
        bind (ih fun other mem => all other (by simp [mem])) fun _ => pure _

/-- The member that is called has a parameter for each argument. -/
theorem resolved {owner : JType} {name : String} {isConstructor : Bool} {f : Member → Gen α}
    (lifts : ∀ method : Member, method.params.length = args.length → Lifts n m (f method)) :
    Lifts n m (do
      let types ← Gen.probeAll ctx args
      let method ← Gen.resolveMethod ctx owner name types isConstructor
      f method) := by
  refine seq (probeAll fresh all) fun types probed =>
    seq (resolveMethod owner name types isConstructor) fun method found => lifts method ?_
  obtain ⟨s, t, probing⟩ := probed
  obtain ⟨u, v, run⟩ := found
  rw [MemberTable.length_params_of_resolve (resolveMethod_eq_ok run).1]
  exact (length_of_probeAll probing).2

theorem invoke (name : String) : Lifts (n + 1) n (invoke ctx name args) := by
  refine bind (receiver _) fun owner => resolved fresh all fun method counted => check ?_
  refine bind (arguments all counted) fun _ => ?_
  exact (finishCall _ method true).mono (by simp; omega) le_rfl

theorem invokeStatic (owner : JType) (name : String) :
    Lifts n n (invokeStatic ctx owner name args) :=
  resolved fresh all fun method counted => check
    (bind (arguments all counted) fun _ => finishCall _ method false)

theorem construct (ty : JType) : Lifts n (n + 1) (construct ctx ty args) := by
  unfold Gen.construct
  refine check (resolved fresh all fun ctor counted => ?_)
  refine bind (emit _) fun _ => bind (push ty) fun _ => bind (emit _) fun _ =>
    bind (push ty) fun _ => bind (arguments all counted) fun _ => ?_
  exact (finishCall _ ctor true).mono (by simp; omega) le_rfl

end Calls

/-! ## Arrays and arithmetic -/

theorem newArray (elem : JType) {length : Gen Unit} (lifts : LiftsValue length) :
    Lifts n (n + 1) (newArray ctx elem length) := by
  unfold Gen.newArray
  refine check (bind (lifts n) fun _ => bind (coerceTop _) fun _ => bind pop fun _ => ?_)
  cases elem with
  | primitive p => exact bind (emit _) fun _ => push _
  | _ => exact bind (emit _) fun _ => push _

theorem arrayElement : Lifts (n + 1) (n + 1) arrayElement := by
  refine bind peek fun ty => ?_
  cases ty.element? with
  | some elem => exact pure elem
  | none => exact throw _

theorem arrayLoad {index : Gen Unit} (lifts : LiftsValue index) :
    Lifts (n + 1) (n + 1) (arrayLoad ctx index) :=
  bind arrayElement fun _ => bind (lifts _) fun _ => bind (coerceTop _) fun _ =>
    bind (popN 2) fun _ => bind (emit _) fun _ => push _

theorem arrayLength : Lifts (n + 1) (n + 1) (arrayLength ctx) :=
  bind arrayElement fun _ => bind pop fun _ => bind (emit _) fun _ => push _

theorem arith (op : ArithOp) {right : Operand} (fresh : ctx.probing = .fresh)
    (lifts : LiftsValue right.code) : Lifts (n + 1) (n + 1) (arith ctx op right) := by
  refine bind peek fun leftType => bind (probe fresh lifts) fun rightType => ?_
  cases operandTypes? op leftType rightType with
  | none => exact throw _
  | some types =>
      exact bind (bind (coerceTop _) fun _ => bind (lifts _) fun _ => coerceTop _) fun _ =>
        bind (popN 2) fun _ => bind (emit _) fun _ => push _

theorem negate : Lifts (n + 1) (n + 1) (negate ctx) := by
  refine bind peek fun ty => ?_
  cases ty.unaryPromotion? with
  | none => exact throw _
  | some p => exact bind (coerceTop _) fun _ => emit _

theorem instanceOf (ty : JType) : Lifts (n + 1) (n + 1) (instanceOf ctx ty) :=
  bind peek fun _ => check (bind pop fun _ => bind (emit _) fun _ => push _)

/-! ## Branches and conditional values -/

section Branches

variable {target : Label} {sense : Bool}

theorem truthBranch (wanted : Bool) {code : Gen Unit} (lifts : LiftsValue code) :
    Lifts n n (truthBranch ctx wanted code sense target) :=
  bind (lifts n) fun _ => bind (coerceTop _) fun _ => bind pop fun _ => jump _ target

theorem nullBranch (wanted : Bool) {operand : Operand} (fresh : ctx.probing = .fresh)
    (lifts : LiftsValue operand.code) :
    Lifts n n (nullBranch ctx wanted operand sense target) :=
  bind (probe fresh lifts) fun _ => check (bind (lifts n) fun _ => bind pop fun _ => jump _ target)

theorem numericBranch (ty : Primitive) (op : RelOp) (nan : Bool) :
    Lifts (n + 2) n (numericBranch ctx ty op nan target) := by
  refine bind (popN 2) fun _ => ?_
  cases comparison? ty op nan with
  | some code => exact bind (emit _) fun _ => jump _ target
  | none => exact jump _ target

theorem compareBranch (op : RelOp) (nan : Bool) {left right : Operand}
    (fresh : ctx.probing = .fresh) (first : LiftsValue left.code) (second : LiftsValue right.code) :
    Lifts n n (compareBranch ctx op left right nan sense target) := by
  have identity (equal : Bool) : Lifts (n + 2) n (identityBranch ctx equal target) :=
    bind (popN 2) fun _ => jump _ target
  have comparands (ty : JType) : Lifts n (n + 2) (comparands ctx left right ty) :=
    bind (first n) fun _ => bind (coerceTop ty) fun _ => bind (second _) fun _ => coerceTop ty
  refine bind (probe fresh first) fun leftType => bind (probe fresh second) fun rightType =>
    check (check (ite ?_ (ite ?_ ?_)))
  · exact bind (first n) fun _ => bind (second _) fun _ => identity _
  · exact check (bind (comparands _) fun _ => bind (popN 2) fun _ => jump _ target)
  · cases JType.binaryPromotion? leftType rightType with
    | some promoted => exact bind (comparands _) fun _ => numericBranch promoted _ _
    | none =>
        dsimp only
        split
        · exact throw _
        · exact bind (first n) fun _ => bind (second _) fun _ => bind (coerceTop _) fun _ =>
            numericBranch _ _ _
        · exact ite (bind (first n) fun _ => bind (second _) fun _ => bind (coerceTop _) fun _ =>
            identity _) (throw _)
        · exact throw _

theorem untilDead {actions : List (Gen Unit)} (all : ∀ action ∈ actions, Lifts 0 0 action) :
    Lifts 0 0 (untilDead actions) := by
  induction actions with
  | nil => exact pure ()
  | cons action rest ih =>
      exact bind (all action (by simp)) fun _ =>
        whenAlive (ih fun other mem => all other (by simp [mem]))

section Junctions

variable {parts : List Branch} (all : ∀ part ∈ parts, LiftsBranch part)

include all

theorem eachBranch : Lifts 0 0 (eachBranch parts sense target) := by
  refine untilDead fun action mem => ?_
  obtain ⟨part, isPart, rfl⟩ := List.mem_map.mp mem
  exact all part isPart sense target

theorem lastBranch : Lifts 0 0 (lastBranch ctx parts sense target) := by
  unfold Gen.lastBranch
  cases last : parts.getLast? with
  | none => exact jump _ target
  | some part =>
      have isPart := List.mem_of_getLast? last
      exact bind newLabel fun skip =>
        bind (eachBranch fun part mem => all part (List.mem_of_mem_dropLast mem)) fun _ =>
          bind (whenAlive (all part isPart sense target)) fun _ => place skip

theorem conjBranch : LiftsBranch (conjBranch ctx parts) := by
  intro sense target
  cases sense with
  | true => exact lastBranch all
  | false => exact eachBranch all

theorem disjBranch : LiftsBranch (disjBranch ctx parts) := by
  intro sense target
  cases sense with
  | true => exact eachBranch all
  | false => exact lastBranch all

end Junctions

theorem constBranch (value : Bool) : LiftsBranch (constBranch ctx value) :=
  fun _ target => ite (jump _ target) (pure ())

theorem conditional {cond : Branch} {thenArm elseArm : Operand} (fresh : ctx.probing = .fresh)
    (condition : LiftsBranch cond) (first : LiftsValue thenArm.code)
    (second : LiftsValue elseArm.code) : Lifts 0 0 (conditional ctx cond thenArm elseArm) := by
  have arm {code : Gen Unit} (ty : JType) (lifts : LiftsValue code) :
      Lifts 0 0 (arm ctx ty code) :=
    inScope ((bind (lifts 0) fun _ => coerceTop ty).ground)
  refine bind (probe fresh first) fun thenType => bind (probe fresh second) fun elseType => ?_
  split
  · exact throw _
  · rename_i ty _
    exact bind newLabel fun elseLabel => bind newLabel fun stop =>
      bind (condition false elseLabel) fun _ =>
        bind (whenAlive (bind (arm ty first) fun _ => jump _ stop)) fun _ =>
          bind (place elseLabel) fun _ => bind (whenAlive (arm ty second)) fun _ => place stop

theorem condValue {cond : Branch} (condition : LiftsBranch cond) :
    Lifts 0 0 (condValue ctx cond) := by
  have boolean (value : Bool) : Lifts 0 0 (boolean ctx value) :=
    (source _ _).ground
  exact bind newLabel fun whenFalse => bind newLabel fun stop =>
    bind (condition false whenFalse) fun _ =>
      bind (whenAlive (bind (boolean true) fun _ => jump _ stop)) fun _ =>
        bind (place whenFalse) fun _ => bind (whenAlive (boolean false)) fun _ => place stop

end Branches

end Lifts

end Gen

open Gen

/-- An operation on the value on top leaves no more values than it finds. -/
theorem Op.length_le_of_isModifier {ctx : Context} {pos : Position} {op : Op} {s t : State}
    (modifier : op.isModifier = true) (run : op.body ctx pos s = .ok () t)
    (alive : s.frame.alive = true) : t.frame.stack.length ≤ s.frame.stack.length := by
  have of_goes {ty ty' : JType} {rest : List JType} (stack : s.frame.stack = ty :: rest)
      (goes : Goes ctx.result (fun _ => none) s t (ty' :: rest)) :
      t.frame.stack.length ≤ s.frame.stack.length := by
    simp [goes.stack_eq, stack]
  cases op with
  | getField name =>
      obtain ⟨owner, rest, field, stack, -, -, goes⟩ := getField_goes alive run
      exact of_goes stack goes
  | invoke name args => exact length_le_of_invoke run
  | arith op right => exact (length_of_arith run).le
  | negate =>
      obtain ⟨top, rest, p, stack, -, goes⟩ := negate_goes alive run
      exact of_goes stack goes
  | cast target =>
      obtain ⟨source, rest, stack, -, goes⟩ := castTop_goes alive run
      exact of_goes stack goes
  | convert target =>
      obtain ⟨source, rest, stack, -, goes⟩ := coerceTop_goes alive run
      exact of_goes stack goes
  | instanceOf type =>
      obtain ⟨top, rest, stack, goes⟩ := instanceOf_goes alive run
      exact of_goes stack goes
  | arrayLength =>
      obtain ⟨top, rest, stack, goes⟩ := arrayLength_goes alive run
      exact of_goes stack goes
  | arrayLoad index => exact (length_of_arrayLoad run).le
  | _ => contradiction

/-! ## Value chains -/

theorem Op.not_isSource_and_isModifier (op : Op) : (op.isSource && op.isModifier) = false := by
  cases op <;> rfl

section

variable {ctx : Context} {pos : Position} {index : Nat} {op : Op} {rest : List Op} {s t : State}

theorem length_le_of_modifiers (modifiers : ∀ op ∈ rest, op.isModifier = true)
    (run : codeFrom ctx pos index rest s = .ok () t) :
    t.frame.stack.length ≤ s.frame.stack.length := by
  induction rest generalizing index s with
  | nil =>
      obtain ⟨-, rfl⟩ := pure_eq_ok.mp run
      exact le_rfl
  | cons op rest ih =>
      obtain ⟨_, u, first, others⟩ := bind_eq_ok.mp run
      obtain ⟨alive, v, ran, rfl⟩ := operation_eq_ok.mp first
      have before := Op.length_le_of_isModifier (modifiers op (by simp)) ran alive
      exact (ih (fun op mem => modifiers op (by simp [mem])) others).trans before

/-- A fragment that succeeds on any stack, if it leaves a value above what may
differ. -/
def LiftsTo (code : Gen Unit) : Prop :=
  ∀ ⦃low low' s s' t⦄, State.Above low low' 0 s s' → code s = .ok () t →
    low.length < t.frame.stack.length → ∃ t', code s' = .ok () t' ∧ Lifted low low' 0 s s' t t'

theorem LiftsTo.nil : LiftsTo (codeFrom ctx pos index []) := by
  intro low low' s s' t above run _
  exact Lifts.pure () above run

/-- An operation on the value on top finds no fewer values than are left in the
end, so that there is one to take. -/
theorem LiftsTo.cons (first : Lifts 1 0 (op.body ctx (index :: pos)))
    (modifiers : ∀ op' ∈ op :: rest, op'.isModifier = true)
    (others : LiftsTo (codeFrom ctx pos (index + 1) rest)) :
    LiftsTo (codeFrom ctx pos index (op :: rest)) := by
  intro low low' s s' t above run enough
  have before := enough.trans_le (length_le_of_modifiers modifiers run)
  obtain ⟨own, -, stack, stack'⟩ := above.frame.stack
  have hasOne : 1 ≤ own.length := by
    simp only [stack, List.length_append] at before
    omega
  have above : State.Above low low' 1 s s' :=
    ⟨⟨⟨own, hasOne, stack, stack'⟩, above.frame.locals, above.frame.alive, above.frame.shapes⟩,
      above.nextLabel⟩
  obtain ⟨_, u, ran, rest⟩ := bind_eq_ok.mp run
  obtain ⟨u', ran', lifted⟩ := first.operation op.name above ran
  obtain ⟨t', rest', lifted'⟩ := others lifted.above rest enough
  exact ⟨t', bind_eq_ok.mpr ⟨(), u', ran', rest'⟩, lifted'.above,
    lifted'.scopes.trans lifted.scopes, lifted'.scopes'.trans lifted.scopes'⟩

/-- One source and operations on the value on top. -/
theorem LiftsValue.of_chain (first : Lifts 0 0 (op.body ctx (index :: pos)))
    (others : LiftsTo (codeFrom ctx pos (index + 1) rest)) :
    LiftsValue (codeFrom ctx pos index (op :: rest)) := by
  intro n low low' s s' ty t above run
  obtain ⟨generated, below, stack, counted⟩ := value_eq_ok.mp run
  obtain ⟨own, enough, before, before'⟩ := above.frame.stack
  have more : low.length < t.frame.stack.length := by
    simp only [stack, List.length_cons, counted, before, List.length_append]
    omega
  obtain ⟨_, u, ran, rest⟩ := bind_eq_ok.mp generated
  obtain ⟨u', ran', lifted⟩ :=
    first.operation op.name ⟨above.frame.mono (Nat.zero_le n), above.nextLabel⟩ ran
  obtain ⟨t', rest', lifted'⟩ := others lifted.above rest more
  obtain ⟨left, -, after, after'⟩ := lifted'.above.frame.stack
  have oneMore : left.length = own.length + 1 := by
    simp only [before, List.length_append] at counted
    have := congrArg List.length (stack.symm.trans after)
    simp only [List.length_cons, List.length_append] at this
    omega
  obtain ⟨top, left, rfl⟩ := List.exists_cons_of_length_eq_add_one oneMore
  obtain ⟨rfl, rfl⟩ := List.cons.inj (stack.symm.trans after)
  refine ⟨t', value_eq_ok.mpr ⟨bind_eq_ok.mpr ⟨(), u', ran', rest'⟩, left ++ low', after', ?_⟩,
    ⟨⟨⟨ty :: left, ?_, after, after'⟩, lifted'.above.frame.locals, lifted'.above.frame.alive,
      lifted'.above.frame.shapes⟩, lifted'.above.nextLabel⟩,
    lifted'.scopes.trans lifted.scopes, lifted'.scopes'.trans lifted.scopes'⟩
  · simp only [List.length_cons] at oneMore
    simp only [before', List.length_append]
    omega
  · simp only [oneMore]
    omega

end

section

variable (ctx : Context)

mutual

theorem Op.body_lifts (pos : Position) :
    (op : Op) → op.isValueStep = true → (∀ operand ∈ op.operands, operand.isValueChain = true) →
      Lifts (if op.isModifier then 1 else 0) 0 (op.body ctx.anew pos)
  | .constant value, _, _ => (Lifts.constant value).ground
  | .boolean value, _, _ => (Lifts.source _ _).ground
  | .null, _, _ => (Lifts.source _ _).ground
  | .this, _, _ => Lifts.receiverLoad.ground
  | .load source, _, _ => (Lifts.load source).ground
  | .getStatic owner name, _, _ => (Lifts.getStatic owner name).ground
  | .invokeStatic owner name args, _, chains =>
      Lifts.invokeStatic rfl (operandsFrom_lift pos 0 args chains) owner name
  | .construct type args, _, chains =>
      (Lifts.construct rfl (operandsFrom_lift pos 0 args chains) type).ground
  | .newArray elem length, _, chains =>
      (Lifts.newArray elem (codeFrom_lifts (0 :: pos) length chains)).ground
  | .conditional cond thenArm elseArm, _, chains =>
      Lifts.conditional rfl
        (cond.branch_lifts (0 :: pos) fun inner mem => chains inner (by simp [Op.operands, mem]))
        (codeFrom_lifts (1 :: pos) thenArm fun inner mem =>
          chains inner (List.mem_append_left _ (List.mem_append_right _ mem)))
        (codeFrom_lifts (2 :: pos) elseArm fun inner mem =>
          chains inner (List.mem_append_right _ mem))
  | .condValue cond, _, chains => Lifts.condValue (cond.branch_lifts (0 :: pos) chains)
  | .getField name, _, _ => (Lifts.getField name).ground
  | .invoke name args, _, chains =>
      Lifts.invoke rfl (operandsFrom_lift pos 0 args chains) name
  | .arith op right, _, chains =>
      (Lifts.arith op rfl (codeFrom_lifts (0 :: pos) right chains)).ground
  | .negate, _, _ => Lifts.negate.ground
  | .cast target, _, _ => (Lifts.castTop target).ground
  | .convert target, _, _ => (Lifts.coerceTop target).ground
  | .instanceOf type, _, _ => (Lifts.instanceOf type).ground
  | .arrayLength, _, _ => Lifts.arrayLength.ground
  | .arrayLoad index, _, chains =>
      (Lifts.arrayLoad (codeFrom_lifts (0 :: pos) index chains)).ground
  | .store .., step, _ | .declare .., step, _ | .declareUninit .., step, _
  | .increment .., step, _ | .putField .., step, _ | .putStatic .., step, _
  | .superInit .., step, _ | .arrayStore .., step, _ | .pop, step, _ | .returnValue, step, _
  | .returnVoid, step, _ | .throw, step, _ | .ifThen .., step, _ | .ifElse .., step, _
  | .whileLoop .., step, _ | .block .., step, _ | .malformed .., step, _ =>
      absurd step Bool.false_ne_true

theorem modifiers_lift (pos : Position) (index : Nat) :
    (ops : List Op) → (∀ op ∈ ops, op.isModifier = true) →
      (∀ operand ∈ operandsIn ops, operand.isValueChain = true) →
      LiftsTo (codeFrom ctx.anew pos index ops)
  | [], _, _ => LiftsTo.nil
  | op :: rest, modifiers, chains => by
      have modifier := modifiers op (by simp)
      have first := op.body_lifts (index :: pos) (by simp [Op.isValueStep, modifier])
        fun operand mem => chains operand (by simp [operandsIn, mem])
      simp only [modifier, if_true] at first
      exact LiftsTo.cons first modifiers (modifiers_lift pos (index + 1) rest
        (fun op mem => modifiers op (by simp [mem]))
        fun operand mem => chains operand (by simp [operandsIn, mem]))

/-- A value chain leaves the same value on any stack. -/
theorem codeFrom_lifts (pos : Position) :
    (ops : Fragment) → (∀ operand ∈ ops :: operandsIn ops, operand.isValueChain = true) →
      LiftsValue (codeFrom ctx.anew pos 0 ops)
  | [], chains => absurd (chains [] (by simp)) Bool.false_ne_true
  | op :: rest, chains => by
      have chain := chains (op :: rest) (by simp)
      simp only [Fragment.isValueChain, Bool.and_eq_true, List.all_eq_true] at chain
      have first := op.body_lifts (0 :: pos) (by simp [Op.isValueStep, chain.1])
        fun operand mem => chains operand (by simp [operandsIn, mem])
      have noModifier : op.isModifier = false := by
        simpa [chain.1] using op.not_isSource_and_isModifier
      simp only [noModifier] at first
      exact LiftsValue.of_chain first (modifiers_lift pos 1 rest chain.2
        fun operand mem => chains operand (by simp [operandsIn, mem]))

theorem operandsFrom_lift (pos : Position) (index : Nat) :
    (args : List (List Op)) → (∀ operand ∈ operandsInArgs args, operand.isValueChain = true) →
      ∀ arg ∈ operandsFrom ctx.anew pos index args, LiftsValue arg.code
  | [], _ => fun _ mem => absurd mem List.not_mem_nil
  | arg :: rest, chains => by
      intro operand mem
      rcases List.mem_cons.mp mem with rfl | later
      · exact codeFrom_lifts (index :: pos) arg fun inner mem =>
          chains inner (List.mem_append_left _ mem)
      · exact operandsFrom_lift pos (index + 1) rest
          (fun inner mem => chains inner (List.mem_append_right _ mem)) operand later

theorem Cond.branch_lifts (pos : Position) :
    (c : Cond) → (∀ operand ∈ c.operands, operand.isValueChain = true) →
      LiftsBranch (c.branch ctx.anew pos)
  | .const value, _ => Lifts.constBranch value
  | .truth value, chains => fun _ _ =>
      Lifts.truthBranch true (codeFrom_lifts (0 :: pos) value chains)
  | .falsity value, chains => fun _ _ =>
      Lifts.truthBranch false (codeFrom_lifts (0 :: pos) value chains)
  | .isNull value, chains => fun _ _ =>
      Lifts.nullBranch true rfl (codeFrom_lifts (0 :: pos) value chains)
  | .nonNull value, chains => fun _ _ =>
      Lifts.nullBranch false rfl (codeFrom_lifts (0 :: pos) value chains)
  | .compare op left right nan, chains => fun _ _ =>
      Lifts.compareBranch op nan rfl
        (codeFrom_lifts (0 :: pos) left fun inner mem => chains inner (List.mem_append_left _ mem))
        (codeFrom_lifts (1 :: pos) right fun inner mem =>
          chains inner (List.mem_append_right _ mem))
  | .conj parts, chains => Lifts.conjBranch (branchesFrom_lift pos 0 parts chains)
  | .disj parts, chains => Lifts.disjBranch (branchesFrom_lift pos 0 parts chains)

theorem branchesFrom_lift (pos : Position) (index : Nat) :
    (parts : List Cond) → (∀ operand ∈ operandsInParts parts, operand.isValueChain = true) →
      ∀ part ∈ branchesFrom ctx.anew pos index parts, LiftsBranch part
  | [], _ => fun _ mem => absurd mem List.not_mem_nil
  | part :: rest, chains => by
      intro branch mem
      rcases List.mem_cons.mp mem with rfl | later
      · exact part.branch_lifts (index :: pos)
          fun inner mem => chains inner (List.mem_append_left _ mem)
      · exact branchesFrom_lift pos (index + 1) rest
          (fun inner mem => chains inner (List.mem_append_right _ mem)) branch later

end

end

end JvmAssembler
