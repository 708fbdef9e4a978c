import Mathlib
import JvmAssembler.Sample
import JvmAssembler.Proofs.Refinement

/-!
# Reinterpretation of narrow types

Whether `short`, `char` and `byte` values are reinterpreted without a cast is a
switch.  Turning it on changes how values are classified in one way only: a
conversion that needed a cast becomes implicit, with the same instructions.
Hence a method that is assembled without reinterpretation is assembled to the
same code with it.
-/

namespace JvmAssembler

namespace Conversion

/-- The pairs that are reinterpreted are narrowing in both directions. -/
theorem ofPrimitives_of_isReinterpreted {p q : Primitive} (pair : isReinterpreted p q = true) :
    ofPrimitives false p q = .narrowingPrimitive ∧ ofPrimitives true p q = .reinterpret ∧
      ofPrimitives false q p = .narrowingPrimitive := by
  cases p <;> cases q <;> first | contradiction | exact ⟨rfl, rfl, rfl⟩

theorem ofPrimitives_true {p q : Primitive} (pair : isReinterpreted p q = false) :
    ofPrimitives true p q = ofPrimitives false p q := by
  simp [ofPrimitives, pair]

/-- Between primitive types the table is not asked. -/
theorem classify_primitive (table : MemberTable) (narrow : Bool) {p q : Primitive} (differ : p ≠ q) :
    classify table narrow (.primitive p) (.primitive q) = ofPrimitives narrow p q := by
  simp [classify, differ, JType.isVoid]

/-- What the switch does to a conversion that is reinterpreted. -/
structure Reinterprets (table : MemberTable) (source target : JType) : Prop where
  off : classify table false source target = .narrowingPrimitive
  on : classify table true source target = .reinterpret
  back : classify table false target source = .narrowingPrimitive

theorem reinterprets {table : MemberTable} {p q : Primitive} (pair : isReinterpreted p q = true) :
    Reinterprets table (.primitive p) (.primitive q) := by
  obtain ⟨off, on, back⟩ := ofPrimitives_of_isReinterpreted pair
  have differ : p ≠ q := by
    rintro rfl
    cases p <;> contradiction
  exact ⟨(classify_primitive table _ differ).trans off, (classify_primitive table _ differ).trans on,
    (classify_primitive table _ differ.symm).trans back⟩

/-- The switch only matters for the conversions that are reinterpreted. -/
theorem classify_true (table : MemberTable) (source target : JType) :
    classify table true source target = classify table false source target ∨
      Reinterprets table source target := by
  by_cases pair : ∃ p q, source = .primitive p ∧ target = .primitive q ∧ isReinterpreted p q = true
  · obtain ⟨p, q, rfl, rfl, pair⟩ := pair
    exact .inr (reinterprets pair)
  · refine .inl ?_
    unfold classify
    split
    · rfl
    · split
      · rfl
      · split
        · rename_i p q _ _
          exact ofPrimitives_true (by simpa using fun isPair => pair ⟨p, q, rfl, rfl, isPair⟩)
        all_goals rfl

/-- An implicit conversion does not depend on the switch. -/
theorem classify_of_isImplicit {table : MemberTable} {source target : JType}
    (implicit : (classify table false source target).isImplicit = true) (narrow : Bool) :
    classify table narrow source target = classify table false source target := by
  cases narrow with
  | false => rfl
  | true =>
      obtain same | pair := classify_true table source target
      · exact same
      · rw [pair.off] at implicit
        contradiction

end Conversion

open Conversion in
/-- Types that agree without reinterpretation agree on the same type with it. -/
theorem JType.common_true {table : MemberTable} {first second ty : JType}
    (agreed : JType.common table false first second = .ok ty) :
    JType.common table true first second = .ok ty := by
  by_cases equal : first = second
  · rwa [JType.common, if_pos equal] at agreed ⊢
  · rw [JType.common, if_neg equal] at agreed ⊢
    -- Where the switch matters, neither direction is implicit without it.
    obtain forward | pair := classify_true table first second
    · obtain backward | pair := classify_true table second first
      · rwa [forward, backward]
      · simp [pair.off, pair.back, isImplicit] at agreed
    · simp [pair.off, pair.back, isImplicit] at agreed

/-- The class with the switch as given. -/
def ClassContext.reinterpreting (cls : ClassContext) (narrow : Bool) : ClassContext :=
  { cls with config := { cls.config with narrowReinterpretation := narrow } }

/-- The context with the switch as given. -/
def Context.reinterpreting (ctx : Context) (narrow : Bool) : Context :=
  { ctx with config := { ctx.config with narrowReinterpretation := narrow } }

namespace Gen

open Conversion

/-- A failing run may become any other. -/
def ifSucceeds : Tolerance where
  errors := Eq
  errors_refl _ := rfl
  anything := True

theorem refines_ifSucceeds {α : Type} {x x' : Gen α}
    (same : ∀ s a t, x s = .ok a t → x' s = .ok a t) : Refines ifSucceeds x x' := by
  intro s
  cases run : x s with
  | ok a t =>
      rw [same s a t run]
      exact .ok a t
  | error e t => exact .anything _ trivial

theorem commonType_eq_ok {ctx : Context} {first second ty : JType} {s t : State} :
    commonType ctx first second s = .ok ty t ↔
      JType.common ctx.table ctx.config.narrowReinterpretation first second = .ok ty ∧ s = t := by
  unfold commonType
  cases JType.common ctx.table ctx.config.narrowReinterpretation first second with
  | ok found => simp [pure_eq_ok]
  | error e => simp [throw_eq_ok]

variable (ctx : Context)

theorem convertTop_reinterpreting :
    convertTop (ctx.reinterpreting true) = convertTop (ctx.reinterpreting false) :=
  convertTop_congr rfl

/-- What is assigned without reinterpretation is assigned in the same way with
it. -/
theorem coerceTop_reinterpreting (target : JType) :
    Refines ifSucceeds (coerceTop (ctx.reinterpreting false) target)
      (coerceTop (ctx.reinterpreting true) target) := by
  refine .andThen _ fun source => ?_
  by_cases implicit : (conversion (ctx.reinterpreting false) source target).isImplicit = true
  · have same : conversion (ctx.reinterpreting true) source target =
        conversion (ctx.reinterpreting false) source target :=
      classify_of_isImplicit implicit true
    rw [same, if_pos implicit, if_pos implicit, convertTop_reinterpreting]
    exact .refl _
  · rw [if_neg implicit]
    exact refines_ifSucceeds fun s a t run => (throw_eq_ok.mp run).elim

/-- A cast does the same whether or not it is needed. -/
theorem castTop_reinterpreting (target : JType) :
    castTop (ctx.reinterpreting true) target = castTop (ctx.reinterpreting false) target := by
  refine bind_congr fun source => ?_
  rw [convertTop_reinterpreting]
  obtain same | pair := classify_true ctx.table source target
  · have same : conversion (ctx.reinterpreting true) source target =
        conversion (ctx.reinterpreting false) source target := same
    rw [same]
  · have off : conversion (ctx.reinterpreting false) source target = .narrowingPrimitive := pair.off
    have on : conversion (ctx.reinterpreting true) source target = .reinterpret := pair.on
    rw [off, on]
    rfl

theorem commonType_reinterpreting (first second : JType) :
    Refines ifSucceeds (commonType (ctx.reinterpreting false) first second)
      (commonType (ctx.reinterpreting true) first second) := by
  refine refines_ifSucceeds fun s ty t run => ?_
  obtain ⟨agreed, rfl⟩ := commonType_eq_ok.mp run
  exact commonType_eq_ok.mpr ⟨JType.common_true agreed, rfl⟩

/-- Reinterpretation keeps what the generator does without it. -/
theorem refines_reinterpreting :
    (ctx.reinterpreting false).Refines ifSucceeds (ctx.reinterpreting true) where
  isSubtype := rfl
  superclass := rfl
  isStatic := rfl
  result := rfl
  probing := rfl
  debugCode := rfl
  implicitVoidReturn := rfl
  resolveField _ _ := .refl _
  resolveMethod _ _ _ _ := .refl _
  coerceTop := coerceTop_reinterpreting ctx
  castTop target := .of_eq (castTop_reinterpreting ctx target)
  commonType := commonType_reinterpreting ctx

end Gen

namespace MethodSpec

/-- A method that is assembled without reinterpretation is assembled to the same
instructions and limits with it. -/
theorem assemble_reinterpreting {spec : MethodSpec} {cls : ClassContext} {method : AssembledMethod}
    (assembled : spec.assemble (cls.reinterpreting false) = .ok method) :
    spec.assemble (cls.reinterpreting true) = .ok method := by
  unfold assemble at assembled
  split at assembled
  · rename_i limits s run
    have same : spec.run (spec.context (cls.reinterpreting true)) {} = .ok limits s :=
      (Gen.Refines.method (Gen.refines_reinterpreting (spec.context cls)) spec).ok run
    rw [assemble, same]
    exact assembled
  · contradiction

end MethodSpec

namespace Sample

open Fragment

/-- `char c = (char) s; return up ? c : (char) 65;`, where the first cast is not
needed with reinterpretation. -/
def narrowCasts : MethodSpec where
  name := "next"
  access := .publicStatic
  params := [("s", .short), ("up", .boolean)]
  result := .char
  body :=
    [.declare "c" .char (loadNamed "s" ++ [.cast .char]),
      .conditional (.truth (loadNamed "up")) (loadNamed "c") (int 65 ++ [.cast .char]),
      .returnValue]

/-- The instructions and limits of `narrowCasts`. -/
def narrowCastsMethod : AssembledMethod :=
  narrowCasts.assembled (classContext "Demo" {})
    [.var (.loadOf .short) 0, .op .i2c, .var (.storeOf .char) 2, .var (.loadOf .boolean) 1,
      .jump .ifeq ⟨0⟩, .var (.loadOf .char) 2, .jump .goto ⟨1⟩, .label ⟨0⟩, .int .bipush 65,
      .op .i2c, .label ⟨1⟩, .op (.returnOf .char)] ⟨1, 3⟩

theorem narrowCasts_assemble :
    narrowCasts.assemble ((classContext "Demo" {}).reinterpreting false) = .ok narrowCastsMethod := by
  decide +kernel

/-- The cast from `short` to `char` is narrowing without reinterpretation and
implicit with it. -/
theorem narrowCasts_assemble_reinterpreting :
    narrowCasts.assemble ((classContext "Demo" {}).reinterpreting false) = .ok narrowCastsMethod ∧
      Conversion.classify (classContext "Demo" {}).table false .short .char ≠
        Conversion.classify (classContext "Demo" {}).table true .short .char ∧
      narrowCasts.assemble ((classContext "Demo" {}).reinterpreting true) = .ok narrowCastsMethod :=
  ⟨narrowCasts_assemble, by decide +kernel, MethodSpec.assemble_reinterpreting narrowCasts_assemble⟩

end Sample

end JvmAssembler
