import Mathlib
import JvmAssembler.Generate.Convert
import JvmAssembler.Proofs.Sequencing

/-!
# The code of a conversion

A conversion is performed with checks of its own: that a type is primitive, that
it is a wrapper, that the conversion is legal at all.  What classification says
about the two types (`Between`) makes all of them succeed, so a legal conversion
only writes its instructions (`instrs`) and gives the operand its new type.

Main statement: `convertTop_conversion`.
-/

namespace JvmAssembler

/-- Instructions that continue with the next one and are neither branch nor
label. -/
def Instr.isPlain : Instr → Bool
  | .op code => !code.isTerminal
  | .jump .. | .label _ => false
  | _ => true

/-- Loads and stores of local variables. -/
def Instr.isVar : Instr → Bool
  | .var .. => true
  | _ => false

namespace JType

theorem not_isPrimitive_of_unboxed? {ty : JType} {p : Primitive} (wraps : ty.unboxed? = some p) :
    ty.isPrimitive = false := by
  cases ty <;> first | rfl | cases wraps

end JType

namespace Conversion

/-! ## Types that are converted -/

/-- What a conversion says about the types it was chosen for. -/
def Between (source target : JType) : Conversion → Prop
  | .identity => source = target
  | .wideningPrimitive | .reinterpret | .narrowingPrimitive =>
      ∃ p q, source = .primitive p ∧ target = .primitive q
  | .boxing | .boxingWidening => ∃ p, source = .primitive p ∧ target.isPrimitive = false
  | .unboxing | .checkedUnboxing => ∃ q, source.isPrimitive = false ∧ target = .primitive q
  | .unboxingWidening =>
      ∃ p q, source.unboxed? = some p ∧ target = .primitive q ∧
        ofPrimitives false p q = .wideningPrimitive
  | .wideningReference | .narrowingReference =>
      source.isPrimitive = false ∧ target.isPrimitive = false
  | .illegal => True

theorem between_ofPrimitives (narrow : Bool) (p q : Primitive) :
    Between (.primitive p) (.primitive q) (ofPrimitives narrow p q) := by
  unfold ofPrimitives
  split
  · rename_i same
    exact congrArg JType.primitive same
  · repeat' split
    all_goals simp [Between]

theorem between_ofUnboxing (table : MemberTable) {source : JType}
    (reference : source.isPrimitive = false) (q : Primitive) :
    Between source (.primitive q) (ofUnboxing table source q) := by
  have checked : Between source (.primitive q)
      (if table.isSubtype (.wrapperOf q) source then .checkedUnboxing else .illegal) := by
    split
    · exact ⟨q, reference, rfl⟩
    · trivial
  unfold ofUnboxing
  cases wraps : source.unboxed? with
  | none => exact checked
  | some p =>
      dsimp only
      split
      · exact ⟨q, reference, rfl⟩
      · split
        · exact ⟨p, q, wraps, rfl, ‹_›⟩
        · exact checked

theorem between_classify (table : MemberTable) (narrow : Bool) (source target : JType) :
    Between source target (classify table narrow source target) := by
  unfold classify
  split
  · assumption
  · split
    · trivial
    · cases source with
      | primitive p =>
          cases target with
          | primitive q => exact between_ofPrimitives narrow p q
          | _ =>
              dsimp only
              repeat' split
              all_goals simp [Between, JType.isPrimitive]
      | null =>
          cases target with
          | primitive q => trivial
          | _ =>
              dsimp only
              split <;> exact ⟨rfl, rfl⟩
      | _ =>
          cases target with
          | primitive q => exact between_ofUnboxing table rfl q
          | _ =>
              dsimp only
              split <;> exact ⟨rfl, rfl⟩

/-- Only a type converts to itself without instructions or change of type. -/
theorem eq_of_classify_eq_identity {table : MemberTable} {narrow : Bool} {source target : JType}
    (same : classify table narrow source target = .identity) : source = target := by
  simpa [same, Between] using between_classify table narrow source target

/-! ## Instructions -/

/-- The instructions that perform a conversion between types it is chosen for. -/
def instrs (source target : JType) : Conversion → List Instr
  | .identity | .illegal => []
  | .wideningPrimitive | .reinterpret | .narrowingPrimitive =>
      match source.asPrimitive?, target.asPrimitive? with
      | some p, some q => primitiveInstrs p q
      | _, _ => []
  | .boxing => source.asPrimitive?.toList.map boxInstr
  | .boxingWidening => source.asPrimitive?.toList.map boxInstr ++ [.type .checkcast target]
  | .unboxing => target.asPrimitive?.toList.map unboxInstr
  | .unboxingWidening =>
      match source.unboxed?, target.asPrimitive? with
      | some p, some q => unboxInstr p :: primitiveInstrs p q
      | _, _ => []
  | .checkedUnboxing =>
      match target.asPrimitive? with
      | some q => [.type .checkcast (.wrapperOf q), unboxInstr q]
      | none => []
  | .wideningReference | .narrowingReference =>
      if source = .null then [] else [.type .checkcast target]

/-- The type that the value is checked for. -/
def checkTarget? (target : JType) : Conversion → Option JType
  | .boxingWidening | .wideningReference | .narrowingReference => some target
  | .checkedUnboxing => target.asPrimitive?.map .wrapperOf
  | _ => none

/-- What a conversion to `target` may write. -/
inductive Part (conversion : Conversion) (target : JType) : Instr → Prop where
  | step {code : Opcode} (continues : code.isTerminal = false) : Part conversion target (.op code)
  | box (p : Primitive) : Part conversion target (boxInstr p)
  | unbox (p : Primitive) : Part conversion target (unboxInstr p)
  | check {ty : JType} (isTarget : conversion.checkTarget? target = some ty) :
      Part conversion target (.type .checkcast ty)

variable {conversion : Conversion} {source target : JType} {instr : Instr}

theorem primitiveInstrs_plain (p q : Primitive) :
    ∀ instr ∈ primitiveInstrs p q, instr.isPlain = true := by
  cases p <;> cases q <;> decide

theorem part_of_mem_primitiveInstrs {p q : Primitive} (mem : instr ∈ primitiveInstrs p q) :
    Part conversion target instr := by
  have continues := primitiveInstrs_plain p q instr mem
  obtain ⟨code, -, rfl⟩ := List.mem_map.mp mem
  exact .step (by simpa [Instr.isPlain] using continues)

/-- What a conversion writes. -/
theorem part_of_mem_instrs (mem : instr ∈ conversion.instrs source target) :
    Part conversion target instr := by
  cases conversion with
  | identity | illegal => contradiction
  | wideningPrimitive | reinterpret | narrowingPrimitive =>
      simp only [instrs] at mem
      split at mem
      · exact part_of_mem_primitiveInstrs mem
      · contradiction
  | boxing =>
      obtain ⟨p, -, rfl⟩ := List.mem_map.mp mem
      exact .box p
  | boxingWidening =>
      rcases List.mem_append.mp mem with boxes | checks
      · obtain ⟨p, -, rfl⟩ := List.mem_map.mp boxes
        exact .box p
      · obtain rfl := List.mem_singleton.mp checks
        exact .check rfl
  | unboxing =>
      obtain ⟨q, -, rfl⟩ := List.mem_map.mp mem
      exact .unbox q
  | unboxingWidening =>
      simp only [instrs] at mem
      split at mem
      · rcases List.mem_cons.mp mem with rfl | step
        · exact .unbox _
        · exact part_of_mem_primitiveInstrs step
      · contradiction
  | checkedUnboxing =>
      simp only [instrs] at mem
      split at mem
      · rename_i q isPrimitive
        simp only [List.mem_cons, List.not_mem_nil, or_false] at mem
        rcases mem with rfl | rfl
        · exact .check (by rw [checkTarget?, isPrimitive, Option.map_some])
        · exact .unbox q
      · contradiction
  | wideningReference | narrowingReference =>
      simp only [instrs] at mem
      split at mem
      · contradiction
      · obtain rfl := List.mem_singleton.mp mem
        exact .check rfl

theorem Part.isPlain (part : Part conversion target instr) : instr.isPlain = true := by
  cases part with
  | step continues => simp [Instr.isPlain, continues]
  | _ => rfl

theorem Part.isVar (part : Part conversion target instr) : instr.isVar = false := by
  cases part <;> rfl

theorem instrs_plain (conversion : Conversion) (source target : JType) :
    ∀ instr ∈ conversion.instrs source target, instr.isPlain = true :=
  fun _ mem => (part_of_mem_instrs mem).isPlain

theorem instrs_noVar (conversion : Conversion) (source target : JType) :
    ∀ instr ∈ conversion.instrs source target, instr.isVar = false :=
  fun _ mem => (part_of_mem_instrs mem).isVar

end Conversion

/-! ## Checks -/

namespace Gen

variable {ctx : Context} {source target : JType}

theorem expectUnboxed_of_unboxed? {p : Primitive} (wraps : source.unboxed? = some p) :
    expectUnboxed source = pure p := by
  rw [expectUnboxed, wraps]

/-- The checks of a legal conversion succeed, and its instructions are written. -/
theorem writeConversion_eq {conversion : Conversion} (legal : conversion ≠ .illegal)
    (between : conversion.Between source target) :
    writeConversion ctx source target conversion =
      emitAll ctx (conversion.instrs source target) := by
  cases conversion with
  | identity => rfl
  | wideningPrimitive | reinterpret | narrowingPrimitive =>
      obtain ⟨p, q, rfl, rfl⟩ := between
      rfl
  | boxing | boxingWidening =>
      obtain ⟨p, rfl, -⟩ := between
      rfl
  | unboxing | checkedUnboxing =>
      obtain ⟨q, -, rfl⟩ := between
      rfl
  | unboxingWidening =>
      obtain ⟨p, q, wraps, rfl, -⟩ := between
      simp only [writeConversion, Conversion.instrs, expectUnboxed_of_unboxed? wraps, wraps]
      rfl
  | wideningReference | narrowingReference =>
      simp only [writeConversion, Conversion.instrs]
      split <;> rfl
  | illegal => contradiction

/-- Performing the conversion that classification chooses does nothing for a type
and itself, is refused where the conversion is illegal, and else writes the
instructions and gives the operand its new type.  No check of its own fails. -/
theorem convertTop_conversion (ctx : Context) (source target : JType) :
    convertTop ctx source target (conversion ctx source target) =
      if conversion ctx source target = .identity then pure ()
      else if conversion ctx source target = .illegal then throw (.illegalCast source target)
      else (do
        emitAll ctx ((conversion ctx source target).instrs source target)
        onFrame (Frame.replaceTop target)) := by
  have between : (conversion ctx source target).Between source target :=
    Conversion.between_classify _ _ source target
  generalize conversion ctx source target = conversion at between ⊢
  by_cases identity : conversion = .identity
  · subst identity
    rfl
  · by_cases illegal : conversion = .illegal
    · subst illegal
      rfl
    · rw [if_neg identity, if_neg illegal, ← writeConversion_eq illegal between]
      cases conversion <;> first | contradiction | rfl

/-- A cast performs whatever conversion there is. -/
theorem castTop_eq (ctx : Context) (target : JType) :
    castTop ctx target = (do
      let source ← peek
      convertTop ctx source target (conversion ctx source target)) := by
  refine bind_congr fun source => ?_
  split
  · rename_i illegal
    rw [illegal]
    rfl
  · rfl

end Gen

end JvmAssembler
