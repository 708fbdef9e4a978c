import Mathlib
import JvmAssembler.Proofs.Effects
import JvmAssembler.Sample

/-!
# Conversions happen as a whole or not at all

Converting the operand on top either fails before anything is written, with an
error that names the two types, or writes the instructions of the conversion and
gives the operand its new type.  The checks that are made while the instructions
are written never fail, since the conversion was classified for these types.  The
instructions turn a value of the old type's category into one of the new type's.
A cast does whatever an assignment does.
-/

namespace JvmAssembler

/-! ## The operand on top -/

namespace Frame

/-- In `g` the operand on top has type `target`, and `g` differs from `f` in
nothing else but the depths, which follow the operands. -/
structure Retypes (f g : Frame) (target : JType) : Prop where
  frame_eq : g =
    { f with stack := target :: f.stack.tail, depth := g.depth, maxStack := g.maxStack }
  sized : f.Sized → g.Sized ∧ g.maxStack = max f.maxStack g.depth

variable {f : Frame} {source target : JType} {rest : List JType}

theorem Retypes.refl (stackEq : f.stack = source :: rest) : Retypes f f source where
  frame_eq := by
    obtain ⟨⟩ := f
    simp_all
  sized := by
    intro sized
    refine ⟨sized, UInt16.toNat_inj.mp ?_⟩
    rw [UInt16.toNat_max, max_eq_left sized.depth_le]

theorem replaceTop_retypes (stackEq : f.stack = source :: rest) (notVoid : target.isVoid = false) :
    ∃ g, replaceTop target f = .ok () g ∧ Retypes f g target := by
  let depth := f.depth - source.width.toUInt16 + target.width.toUInt16
  let g : Frame := { f with stack := target :: rest, depth, maxStack := max f.maxStack depth }
  have replaced : replaceTop target f = .ok () g :=
    replaceTop_eq_ok.mpr ⟨source, rest, stackEq, notVoid, rfl⟩
  refine ⟨g, replaced, ?_, fun sized => ⟨(Grows.of_replaceTop replaced).sized sized, rfl⟩⟩
  simp [g, stackEq]

end Frame

/-! ## Writing and converting -/

namespace Conversion

theorem isVoid_of_classify {table : MemberTable} {narrow : Bool} {source target : JType}
    (legal : classify table narrow source target ≠ .illegal)
    (changes : classify table narrow source target ≠ .identity) : target.isVoid = false := by
  by_contra isVoid
  unfold classify at legal changes
  by_cases same : source = target
  · simp [same] at changes
  · simp [same, isVoid] at legal

end Conversion

namespace Gen

variable {ctx : Context} {s t : State} {source target : JType} {rest : List JType}

/-- The state `t` comes from `s` by writing `code` and giving the operand on top
the type `target`.  Nothing else changes but the log. -/
structure ConvertsTop (s t : State) (target : JType) (code : List Instr) : Prop where
  retypes : s.frame.Retypes t.frame target
  output_eq : t.output = { s.output with instrs := s.output.instrs ++ code.toArray }
  probed_eq : t.probed = s.probed
  depth_eq : t.depth = s.depth

theorem emit_apply (ctx : Context) (s : State) {instr : Instr} (plain : instr.isPlain = true) :
    ∃ log, emit ctx instr s = .ok () { s with output := s.output.push instr, log } := by
  have wrote : write ctx instr s = .ok () { s with
      output := s.output.push instr
      log := if ctx.config.debugCode then s.log.push (.emitted s.frame.depth instr) else s.log } :=
    rfl
  unfold emit
  rw [bind_apply_of_ok wrote]
  cases instr with
  | op code =>
      have continues : code.isTerminal = false := by simpa [Instr.isPlain] using plain
      simp only [continues]
      exact ⟨_, rfl⟩
  | _ => exact ⟨_, rfl⟩

/-- Instructions that do not branch are written as they are. -/
theorem emitAll_apply (ctx : Context) (s : State) {code : List Instr}
    (plain : ∀ instr ∈ code, instr.isPlain = true) :
    ∃ log, emitAll ctx code s = .ok ()
      { s with output := { s.output with instrs := s.output.instrs ++ code.toArray }, log } := by
  induction code generalizing s with
  | nil => exact ⟨s.log, by simp [emitAll, pure, EStateM.pure]⟩
  | cons instr code ih =>
      obtain ⟨plainFirst, plainRest⟩ := List.forall_mem_cons.mp plain
      obtain ⟨log, wrote⟩ := emit_apply ctx s plainFirst
      obtain ⟨log', wroteRest⟩ := ih { s with output := s.output.push instr, log } plainRest
      refine ⟨log', ?_⟩
      unfold emitAll
      rw [bind_apply_of_ok wrote, wroteRest]
      simp [Output.push]

/-- A legal conversion of the operand on top succeeds. -/
theorem convertTop_converts (ctx : Context) (stackEq : s.frame.stack = source :: rest)
    (legal : conversion ctx source target ≠ .illegal) :
    ∃ t, convertTop ctx source target (conversion ctx source target) s = .ok () t ∧
      ConvertsTop s t target ((conversion ctx source target).instrs source target) := by
  rw [convertTop_conversion, if_neg legal]
  by_cases same : conversion ctx source target = .identity
  · obtain rfl : source = target := Conversion.eq_of_classify_eq_identity same
    rw [if_pos same, same]
    exact ⟨s, rfl, .refl stackEq, by simp [Conversion.instrs], rfl, rfl⟩
  · have notVoid : target.isVoid = false := Conversion.isVoid_of_classify legal same
    obtain ⟨log, wrote⟩ := emitAll_apply ctx s (Conversion.instrs_plain _ source target)
    obtain ⟨frame, replaced, retypes⟩ := Frame.replaceTop_retypes stackEq notVoid
    rw [if_neg same, bind_apply_of_ok wrote]
    exact ⟨_, onFrame_eq_ok.mpr ⟨frame, replaced, rfl⟩, retypes, rfl, rfl, rfl⟩

theorem coerceTop_apply (ctx : Context) (target : JType)
    (stackEq : s.frame.stack = source :: rest) :
    coerceTop ctx target s =
      if (conversion ctx source target).isImplicit then
        convertTop ctx source target (conversion ctx source target) s
      else .error (.noConversion source target) s := by
  unfold coerceTop
  rw [bind_apply_of_ok (peek_eq_ok.mpr ⟨⟨rest, stackEq⟩, rfl⟩)]
  split <;> simp_all [throw, throwThe, MonadExceptOf.throw, EStateM.throw]

theorem castTop_apply (ctx : Context) (target : JType)
    (stackEq : s.frame.stack = source :: rest) :
    castTop ctx target s =
      convertTop ctx source target (conversion ctx source target) s := by
  rw [castTop_eq, bind_apply_of_ok (peek_eq_ok.mpr ⟨⟨rest, stackEq⟩, rfl⟩)]

/-- The conversion of the operand on top, where it is legal: it succeeds, and its
instructions turn a value of one category into one of the other. -/
theorem convertTop_performs (ctx : Context) (stackEq : s.frame.stack = source :: rest)
    (legal : conversion ctx source target ≠ .illegal) :
    ∃ t code, convertTop ctx source target (conversion ctx source target) s = .ok () t ∧
      ConvertsTop s t target code ∧
      ∀ below, afterAll? code (source.category :: below) = some (target.category :: below) := by
  obtain ⟨t, ran, converts⟩ := convertTop_converts ctx stackEq legal
  exact ⟨t, _, ran, converts,
    Conversion.afterAll?_instrs legal (Conversion.between_classify _ _ source target)⟩

/-- Converting the operand on top is done as a whole or not at all, and a cast
does whatever an assignment does. -/
theorem conversion_atomic (ctx : Context) (target : JType)
    (stackEq : s.frame.stack = source :: rest) :
    ((conversion ctx source target).isImplicit = false ∧
        coerceTop ctx target s = .error (.noConversion source target) s ∨
      (conversion ctx source target).isImplicit = true ∧
        ∃ t code, coerceTop ctx target s = .ok () t ∧ ConvertsTop s t target code ∧
          ∀ below, afterAll? code (source.category :: below) = some (target.category :: below)) ∧
    (conversion ctx source target = .illegal ∧
        castTop ctx target s = .error (.illegalCast source target) s ∨
      conversion ctx source target ≠ .illegal ∧
        ∃ t code, castTop ctx target s = .ok () t ∧ ConvertsTop s t target code ∧
          ∀ below, afterAll? code (source.category :: below) = some (target.category :: below)) ∧
    ∀ t, coerceTop ctx target s = .ok () t → castTop ctx target s = .ok () t := by
  rw [coerceTop_apply ctx target stackEq, castTop_apply ctx target stackEq]
  by_cases illegal : conversion ctx source target = .illegal
  · have refused : convertTop ctx source target .illegal s = .error (.illegalCast source target) s :=
      rfl
    simp [illegal, refused, Conversion.isImplicit]
  · have performs := convertTop_performs ctx stackEq illegal
    cases (conversion ctx source target).isImplicit with
    | false =>
        rw [if_neg Bool.false_ne_true]
        exact ⟨.inl ⟨rfl, rfl⟩, .inr ⟨illegal, performs⟩, fun t ran => nomatch ran⟩
    | true =>
        rw [if_pos rfl]
        exact ⟨.inr ⟨rfl, performs⟩, .inr ⟨illegal, performs⟩, fun t ran => ran⟩

end Gen

namespace Sample

open Gen

/-- An `Integer` above a `long`. -/
def boxedOverLong : State :=
  { frame := { stack := [.wrapperOf .int, .long], depth := 3, maxStack := 3 } }

def boxingContext : Context :=
  { classContext "Demo" {} with isStatic := true, result := .void }

/-- An `Integer` becomes a `long` without a cast, and cannot become a `boolean`. -/
theorem boxedOverLong_conversion_atomic :
    boxedOverLong.frame.stack = .wrapperOf .int :: [.long] ∧
      (∃ t code, coerceTop boxingContext .long boxedOverLong = .ok () t ∧
        castTop boxingContext .long boxedOverLong = .ok () t ∧
        ConvertsTop boxedOverLong t .long code ∧
        afterAll? code [.reference, .long] = some [.long, .long]) ∧
      castTop boxingContext .boolean boxedOverLong =
        .error (.illegalCast (.wrapperOf .int) .boolean) boxedOverLong := by
  have implicit : (conversion boxingContext (.wrapperOf .int) .long).isImplicit = true := by
    decide +kernel
  have illegal : conversion boxingContext (.wrapperOf .int) .boolean = .illegal := by
    decide +kernel
  obtain ⟨coerces, -, casts⟩ := conversion_atomic (s := boxedOverLong) boxingContext .long rfl
  obtain ⟨-, refused, -⟩ := conversion_atomic (s := boxedOverLong) boxingContext .boolean rfl
  refine ⟨rfl, ?_, ?_⟩
  · rcases coerces with ⟨explicit, -⟩ | ⟨-, t, code, coerced, converts, effect⟩
    · rw [implicit] at explicit
      contradiction
    · exact ⟨t, code, coerced, casts t coerced, converts, effect [.long]⟩
  · rcases refused with ⟨-, fails⟩ | ⟨legal, -⟩
    · exact fails
    · contradiction

end Sample

end JvmAssembler
