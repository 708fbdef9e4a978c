import Mathlib
import JvmAssembler.Proofs.Effects

/-!
# Slots of the operand stack

The operands of a stack take one or two slots each.  `StaysWithin` says that
code keeps a stack below a limit wherever control can be between its
instructions.  There is one place where generated code needs a slot more than
both the stack before and the stack after it: a boxed `long` that becomes a
`float` is unboxed to two slots first.

Slots are counted in 16 bits while code is generated.  Nothing is said here of
places where the count overflows, or has just done so.
-/

namespace JvmAssembler

/-- Slots that an operand takes. -/
def Category.width (c : Category) : Nat :=
  if c.isWide then 2 else 1

theorem Category.width_pos (c : Category) : 1 ≤ c.width := by
  unfold width
  split <;> simp

theorem Category.width_le_two (c : Category) : c.width ≤ 2 := by
  unfold width
  split <;> simp

/-- Slots that the operands of a stack take. -/
def slots (stack : List Category) : Nat :=
  (stack.map Category.width).sum

@[simp]
theorem slots_nil : slots [] = 0 :=
  rfl

@[simp]
theorem slots_cons (c : Category) (rest : List Category) :
    slots (c :: rest) = c.width + slots rest := by
  simp [slots]

@[simp]
theorem slots_append (first second : List Category) :
    slots (first ++ second) = slots first + slots second := by
  simp [slots]

theorem JType.width_category {ty : JType} (value : ty.isVoid = false) :
    ty.category.width = ty.width := by
  cases ty with
  | void => contradiction
  | primitive p => cases p <;> rfl
  | _ => rfl

theorem slots_categories {stack : List JType} (values : ∀ ty ∈ stack, ty.isVoid = false) :
    slots (stack.map JType.category) = JType.totalWidth stack := by
  induction stack with
  | nil => rfl
  | cons ty rest ih =>
      obtain ⟨first, others⟩ := List.forall_mem_cons.mp values
      simp [JType.width_category first, ih others]

/-- A stack that takes at most `limit` slots if 16 bits can count them. -/
def SlotsWithin (limit : Nat) (stack : List Category) : Prop :=
  slots stack ≤ 65535 → slots stack ≤ limit

theorem SlotsWithin.mono {limit limit' : Nat} {stack : List Category}
    (within : SlotsWithin limit stack) (more : limit ≤ limit') : SlotsWithin limit' stack :=
  fun small => (within small).trans more

theorem SlotsWithin.of_slots_eq {limit : Nat} {stack stack' : List Category}
    (within : SlotsWithin limit stack) (same : slots stack' = slots stack) :
    SlotsWithin limit stack' := by
  rwa [SlotsWithin, same]

/-- The operands of a frame in slots. -/
theorem Frame.Fits.slotsWithin {limit : Nat} {stack : List JType} (fits : Frame.Fits limit stack) :
    SlotsWithin limit (stack.map JType.category) := by
  rw [SlotsWithin, slots_categories fits.values]
  intro small
  rw [← JType.toNat_slotCount small]
  exact fits.count_le stack List.suffix_rfl

/-! ## Code within a limit -/

/-- The place between the unboxing of a `Long` and the step to `float`. -/
def UnboxedLong (before after : List Instr) : Prop :=
  before.getLast? = some (Conversion.unboxInstr .long) ∧ after.head? = some (.op .l2f)

theorem UnboxedLong.append_left {before after : List Instr} (unboxed : UnboxedLong before after)
    (more : List Instr) : UnboxedLong (more ++ before) after := by
  refine ⟨?_, unboxed.2⟩
  rw [List.getLast?_append, unboxed.1]
  rfl

theorem UnboxedLong.append_right {before after : List Instr} (unboxed : UnboxedLong before after)
    (more : List Instr) : UnboxedLong before (after ++ more) := by
  refine ⟨unboxed.1, ?_⟩
  rw [List.head?_append, unboxed.2]
  rfl

/-- After `before`, the operands take no more slots than 16 bits can count, and neither
did they before the last instruction, if that is a plain one. -/
structure SlotsCounted (result : JType) (shapes : Label → Option (List Category))
    (entry : Option (List Category)) (before : List Instr) (stack : List Category) : Prop where
  here : slots stack ≤ 65535
  previous : ∀ init instr held, before = init ++ [instr] → instr.isPlain = true →
    flow result shapes entry init = some (some held) → slots held ≤ 65535

/-- Wherever control can be inside the code, the operands take at most `limit`
slots, with one more allowed between unboxing a `Long` and its step to `float`. -/
def StaysWithin (limit : Nat) (result : JType) (shapes : Label → Option (List Category))
    (entry : Option (List Category)) (code : List Instr) : Prop :=
  ∀ before after stack, code = before ++ after →
    flow result shapes entry before = some (some stack) →
    SlotsCounted result shapes entry before stack →
    slots stack ≤ limit ∨ UnboxedLong before after ∧ slots stack ≤ limit + 1

theorem SlotsCounted.of_append {result : JType} {shapes : Label → Option (List Category)}
    {entry middle : Option (List Category)} {first before : List Instr} {stack : List Category}
    (counted : SlotsCounted result shapes entry (first ++ before) stack)
    (flows : flow result shapes entry first = some middle) :
    SlotsCounted result shapes middle before stack where
  here := counted.here
  previous init instr held split plain below := by
    refine counted.previous (first ++ init) instr held (by simp [split]) plain ?_
    rw [flow_append, flows, Option.bind_some, below]

/-- Before one plain instruction, or none. -/
theorem SlotsCounted.entry {result : JType} {shapes : Label → Option (List Category)}
    {code : List Instr} {held stack : List Category} (short : code.length ≤ 1)
    (counted : SlotsCounted result shapes (some held) code stack)
    (plain : ∀ instr ∈ code, instr.isPlain = true)
    (flows : flow result shapes (some held) code = some (some stack)) : slots held ≤ 65535 := by
  rcases code with - | ⟨instr, - | ⟨second, others⟩⟩
  · cases flows
    exact counted.here
  · exact counted.previous [] instr held rfl (plain instr (by simp)) rfl
  · simp at short

namespace StaysWithin

variable {limit limit' : Nat} {result : JType} {shapes : Label → Option (List Category)}
variable {entry middle : Option (List Category)} {code first second : List Instr}

theorem mono (within : StaysWithin limit result shapes entry code) (more : limit ≤ limit') :
    StaysWithin limit' result shapes entry code := by
  intro before after stack split flows counted
  rcases within before after stack split flows counted with low | ⟨here, high⟩
  · exact .inl (low.trans more)
  · exact .inr ⟨here, high.trans (Nat.add_le_add_right more 1)⟩

theorem append (left : StaysWithin limit result shapes entry first)
    (flows : flow result shapes entry first = some middle)
    (right : StaysWithin limit result shapes middle second) :
    StaysWithin limit result shapes entry (first ++ second) := by
  intro before after stack split here counted
  rcases List.append_eq_append_iff.mp split with ⟨more, rfl, rfl⟩ | ⟨more, rfl, rfl⟩
  · -- the place is in the second part
    rw [flow_append, flows, Option.bind_some] at here
    exact (right more after stack rfl here (counted.of_append flows)).imp_right
      (And.imp_left (·.append_left first))
  · exact (left before more stack rfl here counted).imp_right (And.imp_left (·.append_right second))

/-- One more instruction has no places but those around it. -/
theorem concat {instr : Instr} (left : StaysWithin limit result shapes entry first)
    (leaves : ∀ stack, flow result shapes entry (first ++ [instr]) = some (some stack) →
      SlotsWithin limit stack) : StaysWithin limit result shapes entry (first ++ [instr]) := by
  intro before after stack split here counted
  rcases List.append_eq_append_iff.mp split with ⟨more, rfl, last⟩ | ⟨more, rfl, rfl⟩
  · rcases List.singleton_eq_append_iff.mp last with ⟨rfl, rfl⟩ | ⟨rfl, rfl⟩
    · rw [List.append_nil] at here counted ⊢
      rcases left first [] stack (List.append_nil _).symm here counted with low | ⟨⟨-, none⟩, -⟩
      · exact .inl low
      · contradiction
    · exact .inl (leaves stack here counted.here)
  · exact (left before more stack rfl here counted).imp_right (And.imp_left (·.append_right [instr]))

/-- Code of one instruction, or none, has no places but its ends. -/
theorem of_short (short : code.length ≤ 1)
    (enters : ∀ stack, entry = some stack → SlotsWithin limit stack)
    (leaves : ∀ stack, flow result shapes entry code = some (some stack) →
      SlotsCounted result shapes entry code stack → slots stack ≤ limit) :
    StaysWithin limit result shapes entry code := by
  intro before after stack split here counted
  cases before with
  | nil => exact .inl (enters stack (Option.some.inj here) counted.here)
  | cons instr rest =>
      have nothing : rest = [] ∧ after = [] := by
        simpa [split] using short
      rcases nothing with ⟨rfl, rfl⟩
      rw [List.append_nil] at split
      exact .inl (leaves stack (split ▸ here) (split ▸ counted))

theorem nil {stack : List Category} (enters : SlotsWithin limit stack) :
    StaysWithin limit result shapes (some stack) [] := by
  apply of_short (Nat.zero_le _)
  · rintro _ ⟨⟩
    exact enters
  · rintro _ ⟨⟩ counted
    exact enters counted.here

theorem cons {instr : Instr} {stack after : List Category} (plain : instr.isPlain = true)
    (step : instr.after? stack = some after) (enters : SlotsWithin limit stack)
    (rest : StaysWithin limit result shapes (some after) code) :
    StaysWithin limit result shapes (some stack) (instr :: code) := by
  have flows : flow result shapes (some stack) [instr] = some (some after) := by
    rw [flow, flowStep_of_isPlain plain step]
    rfl
  have first : StaysWithin limit result shapes (some stack) [instr] := by
    apply of_short le_rfl
    · rintro _ ⟨⟩
      exact enters
    · rintro final here counted
      rw [flows] at here
      cases here
      rcases rest [] code after rfl rfl ⟨counted.here, by simp⟩ with low | ⟨⟨unboxed, -⟩, -⟩
      · exact low
      · contradiction
  exact first.append flows rest

end StaysWithin

/-- Code that stays within every limit that the stacks at its ends keep. -/
def Steady (result : JType) (code : List Instr) (entry exit : List Category) : Prop :=
  ∀ limit shapes, SlotsWithin limit entry → SlotsWithin limit exit →
    StaysWithin limit result shapes (some entry) code

theorem Steady.of_short {result : JType} {code : List Instr} {entry exit : List Category}
    (plain : ∀ instr ∈ code, instr.isPlain = true) (steps : afterAll? code entry = some exit)
    (short : code.length ≤ 1) : Steady result code entry exit := by
  intro limit shapes enters leaves
  have flows : flow result shapes (some entry) code = some (some exit) :=
    flow_of_afterAll? plain steps
  apply StaysWithin.of_short short
  · rintro _ ⟨⟩
    exact enters
  · intro final here counted
    rw [flows] at here
    cases here
    exact leaves counted.here

/-! ## Conversions -/

namespace Conversion

variable {limit : Nat} {result : JType} {shapes : Label → Option (List Category)}
variable {rest : List Category}

/-- If two instructions convert a primitive value, it is an `int` from the first of them
on. -/
theorem primitiveInstrs_cases (p q : Primitive) :
    (primitiveInstrs p q).length ≤ 1 ∨
      ∃ first second, primitiveInstrs p q = [first, second] ∧ q.category = .int ∧
        (∀ rest, first.after? (p.category :: rest) = some (.int :: rest)) ∧
        ∀ rest, second.after? (.int :: rest) = some (q.category :: rest) := by
  cases p <;> cases q <;>
    first
    | exact .inl (by decide)
    | exact .inr ⟨_, _, rfl, rfl, fun _ => rfl, fun _ => rfl⟩

theorem primitiveInstrs_staysWithin (p q : Primitive)
    (enters : SlotsWithin limit (p.category :: rest))
    (leaves : SlotsWithin limit (q.category :: rest)) :
    StaysWithin limit result shapes (some (p.category :: rest)) (primitiveInstrs p q) := by
  have plain := primitiveInstrs_plain p q
  rcases primitiveInstrs_cases p q with short | ⟨first, second, same, isInt, toInt, fromInt⟩
  · exact Steady.of_short plain (afterAll?_primitiveInstrs p q rest) short _ _ enters leaves
  · rw [same] at plain ⊢
    exact .cons (plain first (by simp)) (toInt rest) enters
      (.cons (plain second (by simp)) (fromInt rest) (isInt ▸ leaves) (.nil leaves))

/-- A value that is unboxed and widened is not wider in between, unless it is a
`Long` that becomes a `float`. -/
theorem width_le_of_ofPrimitives {p q : Primitive}
    (widening : ofPrimitives false p q = .wideningPrimitive) :
    p.category.width ≤ q.category.width ∨ p = .long ∧ q = .float := by
  cases p <;> cases q <;> first
    | exact .inl (by decide)
    | exact .inr ⟨rfl, rfl⟩
    | contradiction

theorem unboxed_staysWithin (p q : Primitive)
    (widens : p.category.width ≤ q.category.width ∨ p = .long ∧ q = .float)
    (enters : SlotsWithin limit (.reference :: rest))
    (leaves : SlotsWithin limit (q.category :: rest)) :
    StaysWithin limit result shapes (some (.reference :: rest))
      (unboxInstr p :: primitiveInstrs p q) := by
  rcases widens with noWider | ⟨rfl, rfl⟩
  · -- the unboxed value is as wide as the object or as the widened value
    have between : SlotsWithin limit (p.category :: rest) := by
      by_cases asWide : p.category.width = q.category.width
      · exact leaves.of_slots_eq (by simp [asWide])
      · have narrow : p.category.width = Category.width .reference := by
          have := p.category.width_pos
          have := q.category.width_le_two
          have : Category.width .reference = 1 := rfl
          omega
        exact enters.of_slots_eq (by simp [narrow])
    exact .cons rfl (after?_unboxInstr p rest) enters
      (primitiveInstrs_staysWithin p q between leaves)
  · have unboxes : flowStep result shapes (some (.reference :: rest)) (unboxInstr .long) =
        some (some (.long :: rest)) := flowStep_of_isPlain rfl (after?_unboxInstr .long rest)
    have steps : flowStep result shapes (some (.long :: rest)) (.op .l2f) =
        some (some (.float :: rest)) := flowStep_of_isPlain rfl rfl
    intro before after stack split flows counted
    rcases before with - | ⟨first, - | ⟨second, others⟩⟩
    · cases flows
      exact .inl (enters counted.here)
    · obtain ⟨rfl, rfl⟩ : unboxInstr .long = first ∧ [.op .l2f] = after := List.cons.inj split
      rw [flow, unboxes] at flows
      cases flows
      refine .inr ⟨⟨rfl, rfl⟩, ?_⟩
      have small : 2 + slots rest ≤ 65535 := counted.here
      have taken : 1 + slots rest ≤ limit := enters (show 1 + slots rest ≤ 65535 by omega)
      change 2 + slots rest ≤ limit + 1
      omega
    · obtain ⟨rfl, tail⟩ : unboxInstr .long = first ∧ [.op .l2f] = second :: others ++ after :=
        List.cons.inj split
      obtain ⟨rfl, nothing⟩ := List.cons.inj tail
      obtain ⟨rfl, rfl⟩ := List.append_eq_nil_iff.mp nothing.symm
      rw [flow, unboxes, Option.bind_some, flow, steps] at flows
      cases flows
      exact .inl (leaves counted.here)

/-- The instructions of a conversion need no more slots than its source or its
target, but for the unboxing of a `Long` that becomes a `float`. -/
theorem instrs_staysWithin {source target : JType} {conversion : Conversion}
    (legal : conversion ≠ .illegal) (between : Between source target conversion)
    (enters : SlotsWithin limit (source.category :: rest))
    (leaves : SlotsWithin limit (target.category :: rest)) :
    StaysWithin limit result shapes (some (source.category :: rest))
      (conversion.instrs source target) := by
  cases conversion with
  | identity => exact .nil enters
  | wideningPrimitive | reinterpret | narrowingPrimitive =>
      obtain ⟨p, q, rfl, rfl⟩ := between
      exact primitiveInstrs_staysWithin p q enters leaves
  | boxing =>
      obtain ⟨p, rfl, notPrimitive⟩ := between
      rw [JType.category_of_notPrimitive notPrimitive] at leaves
      exact .cons rfl (after?_boxInstr p rest) enters (.nil leaves)
  | boxingWidening =>
      obtain ⟨p, rfl, notPrimitive⟩ := between
      rw [JType.category_of_notPrimitive notPrimitive] at leaves
      exact .cons rfl (after?_boxInstr p rest) enters
        (.cons rfl (after?_checkcast target rest) leaves (.nil leaves))
  | unboxing =>
      obtain ⟨q, notPrimitive, rfl⟩ := between
      rw [JType.category_of_notPrimitive notPrimitive] at enters ⊢
      exact .cons rfl (after?_unboxInstr q rest) enters (.nil leaves)
  | checkedUnboxing =>
      obtain ⟨q, notPrimitive, rfl⟩ := between
      rw [JType.category_of_notPrimitive notPrimitive] at enters ⊢
      exact .cons rfl (after?_checkcast _ rest) enters
        (.cons rfl (after?_unboxInstr q rest) enters (.nil leaves))
  | unboxingWidening =>
      obtain ⟨p, q, wraps, rfl, widens⟩ := between
      rw [JType.category_of_notPrimitive (JType.not_isPrimitive_of_unboxed? wraps)] at enters ⊢
      simp only [instrs, wraps, JType.asPrimitive?]
      exact unboxed_staysWithin p q (width_le_of_ofPrimitives widens) enters leaves
  | wideningReference | narrowingReference =>
      rw [JType.category_of_notPrimitive between.1] at enters ⊢
      simp only [instrs]
      split
      · exact .nil enters
      · exact .cons rfl (after?_checkcast _ rest) enters (.nil enters)
  | illegal => contradiction

end Conversion

end JvmAssembler
