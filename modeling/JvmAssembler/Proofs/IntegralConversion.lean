import Mathlib
import JvmAssembler.Proofs.AtomicConversion
import JvmAssembler.Proofs.IntegerWords
import JvmAssembler.Proofs.Subtyping

/-!
# Conversions of whole numbers

What the instructions of a conversion compute.  The operand is a number of an
integral type or an object of its wrapper class; the call that unboxes an object
returns the number in it.

Main statement: a conversion to an integral type yields the only number of that
type that agrees with the given one modulo two to the number of its bits.  So a
widening keeps the number.
-/

namespace JvmAssembler

/-! ## Executing a conversion -/

/-- An object of a wrapper class: the primitive type that it boxes and the value
in it. -/
structure Box where
  type : Primitive
  value : Value

/-- The wrapper objects, by number. -/
abbrev Boxes := Nat → Option Box

/-- How the instructions of a conversion end. -/
inductive Converted where
  | operands (stack : List Value)
  /-- A check for a class failed. -/
  | classCast
  deriving DecidableEq

/-- The object on top. -/
def Boxes.top? (boxes : Boxes) : List Value → Option Box
  | .reference (.object number) :: _ => boxes number
  | _ => none

/-- What an instruction of a conversion does.  A calculation is the machine's; a
check lets the objects pass whose class is a subtype among the standard classes,
whatever a table declares; the unboxing method returns the value in the object. -/
def Instr.convert (boxes : Boxes) (stack : List Value) : Instr → Option Converted
  | .op code => (code.calculation?.bind fun calculation => calculation.apply stack).map .operands
  | .type code target =>
      if code = .checkcast then
        (boxes.top? stack).map fun box =>
          if MemberTable.javaLang.isSubtype (.wrapperOf box.type) target then .operands stack
          else .classCast
      else none
  | .member code ref =>
      (boxes.top? stack).bind fun box =>
        if Instr.member code ref = Conversion.unboxInstr box.type then
          some (.operands (box.value :: stack.tail))
        else none
  | _ => none

/-- What instructions of a conversion do, one after the other. -/
def convertAll (boxes : Boxes) : List Instr → List Value → Option Converted
  | [], stack => some (.operands stack)
  | instr :: rest, stack =>
      match instr.convert boxes stack with
      | some (.operands after) => convertAll boxes rest after
      | ending => ending

section

variable {boxes : Boxes} {stack after : List Value} {code : List Instr}

theorem convertAll_cons {instr : Instr}
    (converts : instr.convert boxes stack = some (.operands after)) (code : List Instr) :
    convertAll boxes (instr :: code) stack = convertAll boxes code after := by
  rw [convertAll, converts]

/-- An instruction without operands of its own calculates as on the machine, or it
returns. -/
theorem convert_of_act (boxes : Boxes) {op : Opcode} {store : Store} {action : Action}
    (acts : (Instr.op op).act stack store = some action) :
    (∃ after, (Instr.op op).convert boxes stack = some (.operands after) ∧
      action = .go after store) ∨ ∃ result, action = .finish result := by
  unfold Instr.act at acts
  cases calculates : op.calculation? with
  | some calculation =>
      simp only [calculates, Option.map_eq_some_iff] at acts
      obtain ⟨after, applied, rfl⟩ := acts
      exact .inl ⟨after, by simp [Instr.convert, calculates, applied], rfl⟩
  | none =>
      right
      simp only [calculates] at acts
      split at acts
      · exact ⟨none, (Option.some.inj acts).symm⟩
      · rw [Option.ite_none_right_eq_some, Option.bind_eq_some_iff] at acts
        obtain ⟨-, value, -, returns⟩ := acts
        rw [Option.ite_none_right_eq_some] at returns
        exact ⟨some value, (Option.some.inj returns.2).symm⟩

/-- Calculations that the machine runs through convert its operands. -/
theorem convertAll_of_exec {program trace : List Instr} {store store' : Store}
    (calculates : ∀ instr ∈ code, ∃ op, instr = .op op)
    (run : Exec program ⟨.code code, stack, store⟩ trace ⟨.code [], after, store'⟩) :
    convertAll boxes code stack = some (.operands after) := by
  induction code generalizing stack trace with
  | nil =>
      cases run with
      | refl => rfl
      | step first => simp [Machine.step?] at first
  | cons instr code ih =>
      obtain ⟨⟨op, rfl⟩, calculatesRest⟩ := List.forall_mem_cons.mp calculates
      cases run with
      | step first rest =>
          obtain ⟨action, acts, next⟩ := Option.map_eq_some_iff.mp first
          rcases convert_of_act boxes acts with ⟨middle, converts, rfl⟩ | ⟨result, rfl⟩
          · obtain ⟨rfl, rfl⟩ := Prod.mk.inj next
            rw [convertAll_cons converts]
            exact ih calculatesRest rest
          · -- After a return the run does not come to the end of the code.
            obtain ⟨rfl, rfl⟩ := Prod.mk.inj next
            cases rest with
            | step second => simp [Machine.step?] at second

theorem placed_eq_nil_of_calculates (calculates : ∀ instr ∈ code, ∃ op, instr = .op op) :
    placed code = [] := by
  rw [placed, List.filterMap_eq_nil_iff]
  intro instr mem
  obtain ⟨op, rfl⟩ := calculates instr mem
  rfl

theorem Runs.convertAll_eq {setting : Setting} {loads : List Instr}
    {before after : List Value} (calculates : ∀ instr ∈ code, ∃ op, instr = .op op)
    (runs : Runs setting code before loads none after) (below : List Value) :
    convertAll boxes code (before ++ below) = some (.operands (after ++ below)) := by
  have within : Within code code [] :=
    ⟨by simp [placed_eq_nil_of_calculates calculates], by simp⟩
  obtain ⟨trace, run, -⟩ := runs within below
  rw [List.append_nil] at run
  exact convertAll_of_exec calculates run

end

/-! ## Ranges -/

namespace IntType

variable {ty source target : IntType} {m n : Int}

/-- The least number of a type. -/
def least (ty : IntType) : Int :=
  if ty.isSigned then -(2 ^ (ty.bits - 1)) else 0

/-- The greatest number of a type. -/
def greatest (ty : IntType) : Int :=
  (if ty.isSigned then 2 ^ (ty.bits - 1) else 2 ^ ty.bits) - 1

/-- The number `m` of the type agrees with `n` in the bits of the type. -/
structure Represents (ty : IntType) (n m : Int) : Prop where
  least_le : ty.least ≤ m
  le_greatest : m ≤ ty.greatest
  modEq : m ≡ n [ZMOD 2 ^ ty.bits]

theorem contains_iff_range : ty.Contains n ↔ ty.least ≤ n ∧ n ≤ ty.greatest := by
  rw [contains_iff, least, greatest, Int.le_sub_one_iff]

/-- Wrapping gives the only number of the type with the same bits. -/
theorem represents_iff : ty.Represents n m ↔ m = ty.wrap n := by
  constructor
  · rintro ⟨least_le, le_greatest, modEq⟩
    have contains : ty.wrap m = m := contains_iff_range.mpr ⟨least_le, le_greatest⟩
    rw [← contains]
    exact wrap_congr (by exact_mod_cast modEq)
  · rintro rfl
    obtain ⟨least_le, le_greatest⟩ := contains_iff_range.mp (contains_wrap ty n)
    exact ⟨least_le, le_greatest, by exact_mod_cast wrap_emod ty n⟩

end IntType

/-! ## Classification -/

/-- Whether the conversion widens a primitive value, after unboxing or not. -/
def Conversion.isWidening : Conversion → Bool
  | .wideningPrimitive | .unboxingWidening => true
  | _ => false

theorem JType.unboxed?_wrapperOf (p : Primitive) : (JType.wrapperOf p).unboxed? = some p := by
  cases p <;> rfl

namespace IntType

open Gen

variable {ctx : Context} {source target : IntType}

/-- Numbers are always convertible. -/
theorem conversion_ne_illegal (ctx : Context) (number : source ≠ .boolean)
    (targetNumber : target ≠ .boolean) : conversion ctx source.type target.type ≠ .illegal := by
  cases narrow : ctx.config.narrowReinterpretation <;> cases source <;> cases target <;>
    first
    | contradiction
    | simp [conversion, Conversion.classify, Conversion.ofPrimitives, narrow, primitive,
        Conversion.isReinterpreted, Conversion.rank, JType.isVoid]

theorem converts_of_isWidening
    (widening : (conversion ctx source.type target.type).isWidening = true) :
    converts false source target = true := by
  cases narrow : ctx.config.narrowReinterpretation <;> cases source <;> cases target <;>
    first
    | rfl
    | simp [conversion, Conversion.classify, Conversion.ofPrimitives, narrow, primitive,
        Conversion.isReinterpreted, Conversion.rank, JType.isVoid, Conversion.isWidening] at widening

/-- The conversions of an object of a wrapper class. -/
theorem conversion_wrapperOf (ctx : Context) (source target : IntType) :
    conversion ctx (.wrapperOf source.primitive) target.type =
      if source = target then .unboxing
      else if converts false source target then .unboxingWidening
      else if ctx.table.isSubtype (.wrapperOf target.primitive) (.wrapperOf source.primitive) then
        .checkedUnboxing
      else .illegal := by
  have classified : conversion ctx (.wrapperOf source.primitive) target.type =
      Conversion.ofUnboxing ctx.table (.wrapperOf source.primitive) target.primitive := rfl
  rw [classified, Conversion.ofUnboxing, JType.unboxed?_wrapperOf]
  cases source <;> cases target <;> rfl

end IntType

/-! ## The standard wrapper classes -/

namespace MemberTable

/-- The types above the standard wrapper classes. -/
def wrapperParents : List JType :=
  [.object, .named "java.lang.Number", .named "java.io.Serializable",
    .named "java.lang.Comparable"]

/-- They are all that is declared above the wrapper classes and above themselves. -/
theorem javaLang_parents_wrappers :
    ∀ ty ∈ Primitive.all.map .wrapperOf ++ wrapperParents, ∀ sup ∈ javaLang.parents ty,
      sup ∈ wrapperParents := by
  decide +kernel

theorem wrapperOf_notMem_wrapperParents (p : Primitive) : .wrapperOf p ∉ wrapperParents := by
  cases p <;> decide

theorem mem_wrapperParents_of_inherits {p : Primitive} {sup : JType}
    (leads : javaLang.Inherits (.wrapperOf p) sup) :
    sup = .wrapperOf p ∨ sup ∈ wrapperParents := by
  induction leads with
  | refl => exact .inl rfl
  | tail _ edge ih =>
      refine .inr (javaLang_parents_wrappers _ (List.mem_append.mpr ?_) _ edge)
      rcases ih with rfl | above
      · exact .inl (List.mem_map_of_mem p.mem_all)
      · exact .inr above

theorem of_isSubtype_cls {table : MemberTable} {name name' : String}
    (below : table.isSubtype (.cls name) (.cls name') = true) :
    JType.cls name = .cls name' ∨ JType.cls name' ∈ table.lineage (.cls name) := by
  simpa [isSubtype] using below

/-- No standard wrapper class is below another. -/
theorem eq_of_javaLang_isSubtype {p q : Primitive}
    (below : javaLang.isSubtype (.wrapperOf p) (.wrapperOf q) = true) : p = q := by
  have above : JType.wrapperOf q = .wrapperOf p ∨ .wrapperOf q ∈ wrapperParents := by
    rcases of_isSubtype_cls below with same | listed
    · exact .inl same.symm
    · rcases mem_lineage.mp listed with leads | ⟨-, isObject⟩
      · exact mem_wrapperParents_of_inherits leads
      · exact .inr (List.mem_cons.mpr (.inl isObject))
  rcases above with same | parent
  · have unboxed := congrArg JType.unboxed? same
    rw [JType.unboxed?_wrapperOf, JType.unboxed?_wrapperOf] at unboxed
    exact (Option.some.inj unboxed).symm
  · exact absurd parent (wrapperOf_notMem_wrapperParents q)

end MemberTable

/-! ## The result -/

namespace IntType

open Gen

/-- An operand of this type stands for the number: it is a word that holds it, or
an object of the wrapper class with the number in it. -/
inductive Carries (ty : IntType) (boxes : Boxes) (n : Int) : JType → Value → Prop where
  | word : Carries ty boxes n ty.type (ty.value n)
  | boxed {number : Nat} (isBox : boxes number = some ⟨ty.primitive, ty.value n⟩) :
      Carries ty boxes n (.wrapperOf ty.primitive) (.reference (.object number))

variable {ctx : Context} {boxes : Boxes} {source target : IntType} {n : Int} {number : Nat}

theorem calculates_primitiveInstrs (p q : Primitive) :
    ∀ instr ∈ Conversion.primitiveInstrs p q, ∃ op, instr = .op op := by
  intro instr mem
  obtain ⟨op, -, rfl⟩ := List.mem_map.mp mem
  exact ⟨op, rfl⟩

/-- The conversions between different types of numbers. -/
theorem convertAll_primitiveInstrs (ctx : Context) (differ : source ≠ target)
    (legal : conversion ctx source.type target.type ≠ .illegal) (contains : source.Contains n)
    (below : List Value) :
    convertAll boxes (Conversion.primitiveInstrs source.primitive target.primitive)
      (source.value n :: below) = some (.operands (target.value (target.wrap n) :: below)) := by
  have runs : Runs ⟨false, fun _ => none, fun _ => True⟩ _ _ _ _ _ :=
    conversion_runs legal contains
  rw [(instrs_conversion differ legal).2] at runs
  exact runs.convertAll_eq (calculates_primitiveInstrs _ _) below

theorem convertAll_word (legal : conversion ctx source.type target.type ≠ .illegal)
    (contains : source.Contains n) (below : List Value) :
    convertAll boxes ((conversion ctx source.type target.type).instrs source.type target.type)
      (source.value n :: below) = some (.operands (target.value (target.wrap n) :: below)) := by
  by_cases same : source = target
  · subst same
    rw [conversion_self, show source.wrap n = n from contains]
    rfl
  · rw [(instrs_conversion same legal).2]
    exact convertAll_primitiveInstrs ctx same legal contains below

theorem convertAll_unboxInstr (isBox : boxes number = some ⟨source.primitive, source.value n⟩)
    (code : List Instr) (below : List Value) :
    convertAll boxes (Conversion.unboxInstr source.primitive :: code)
      (.reference (.object number) :: below) = convertAll boxes code (source.value n :: below) := by
  apply convertAll_cons
  simp [Instr.convert, Conversion.unboxInstr, Boxes.top?, isBox]

/-- An object passes the checks for its own class only. -/
theorem convertAll_checkcast (isBox : boxes number = some ⟨source.primitive, source.value n⟩)
    (differ : source ≠ target) (code : List Instr) (below : List Value) :
    convertAll boxes (.type .checkcast (.wrapperOf target.primitive) :: code)
      (.reference (.object number) :: below) = some .classCast := by
  have apart : ¬ MemberTable.javaLang.isSubtype (.wrapperOf source.primitive)
      (.wrapperOf target.primitive) = true :=
    fun isBelow => differ (primitive_injective (MemberTable.eq_of_javaLang_isSubtype isBelow))
  have fails : (Instr.type .checkcast (.wrapperOf target.primitive)).convert boxes
      (.reference (.object number) :: below) = some .classCast := by
    simp [Instr.convert, Boxes.top?, isBox, apart]
  rw [convertAll, fails]

/-- An object is unboxed and its number widened.  Where a table declares another
wrapper class below that of the object, the check for that class fails. -/
theorem convertAll_boxed (isBox : boxes number = some ⟨source.primitive, source.value n⟩)
    (legal : conversion ctx (.wrapperOf source.primitive) target.type ≠ .illegal)
    (numeric : conversion ctx source.type target.type ≠ .illegal) (contains : source.Contains n) :
    (∀ below, convertAll boxes ((conversion ctx (.wrapperOf source.primitive) target.type).instrs
          (.wrapperOf source.primitive) target.type) (.reference (.object number) :: below) =
      some (.operands (target.value (target.wrap n) :: below))) ∨
    source ≠ target ∧
      ctx.table.isSubtype (.wrapperOf target.primitive) (.wrapperOf source.primitive) = true ∧
      ∀ below, convertAll boxes ((conversion ctx (.wrapperOf source.primitive) target.type).instrs
          (.wrapperOf source.primitive) target.type) (.reference (.object number) :: below) = some .classCast := by
  rw [conversion_wrapperOf] at legal ⊢
  by_cases same : source = target
  · subst same
    left
    intro below
    rw [if_pos rfl, show source.wrap n = n from contains]
    exact convertAll_unboxInstr isBox [] below
  · rw [if_neg same] at legal ⊢
    by_cases widens : converts false source target = true
    · left
      intro below
      have instrs : Conversion.unboxingWidening.instrs (.wrapperOf source.primitive) target.type =
          Conversion.unboxInstr source.primitive ::
            Conversion.primitiveInstrs source.primitive target.primitive := by
        simp only [Conversion.instrs, JType.unboxed?_wrapperOf]
        rfl
      rw [if_pos widens, instrs, convertAll_unboxInstr isBox]
      exact convertAll_primitiveInstrs ctx same numeric contains below
    · rw [if_neg widens] at legal ⊢
      have declared := of_not_not fun undeclared => legal (if_neg undeclared)
      rw [if_pos declared]
      exact .inr ⟨same, declared, fun below => convertAll_checkcast isBox same _ below⟩

/-- What a conversion of an operand that carries a number computes. -/
theorem Carries.convertAll_eq {type : JType} {operand : Value}
    (carries : source.Carries boxes n type operand) (contains : source.Contains n)
    (legal : conversion ctx type target.type ≠ .illegal)
    (numeric : conversion ctx source.type target.type ≠ .illegal) :
    (∀ below, convertAll boxes ((conversion ctx type target.type).instrs type target.type)
        (operand :: below) =
      some (.operands (target.value (target.wrap n) :: below))) ∨
    type = .wrapperOf source.primitive ∧ source ≠ target ∧
      ctx.table.isSubtype (.wrapperOf target.primitive) (.wrapperOf source.primitive) = true ∧
      ∀ below, convertAll boxes ((conversion ctx type target.type).instrs type target.type)
        (operand :: below) =
        some .classCast := by
  cases carries with
  | word => exact .inl (convertAll_word numeric contains)
  | boxed isBox =>
      exact (convertAll_boxed isBox legal numeric contains).imp_right fun checked => ⟨rfl, checked⟩

theorem Carries.converts_of_isWidening {type : JType} {operand : Value}
    (carries : source.Carries boxes n type operand)
    (widening : (conversion ctx type target.type).isWidening = true) :
    converts false source target = true := by
  cases carries with
  | word => exact IntType.converts_of_isWidening widening
  | boxed =>
      by_contra narrows
      rw [conversion_wrapperOf, if_neg narrows] at widening
      split at widening
      · contradiction
      · split at widening <;> contradiction

/-- A cast writes the code, and so does an assignment where it is allowed. -/
structure Writes (ctx : Context) (type target : JType) (code : List Instr) (s t : State) :
    Prop where
  cast : castTop ctx target s = .ok () t
  coerce : coerceTop ctx target s =
    if (conversion ctx type target).isImplicit then .ok () t
    else .error (.noConversion type target) s
  output : t.output.instrs = s.output.instrs ++ code.toArray

section

variable {type : JType} {operand : Value} {s : State} {rest : List JType}
  (carries : source.Carries boxes n type operand) (contains : source.Contains n)
  (fromNumber : source ≠ .boolean) (toNumber : target ≠ .boolean)
  (legal : type = .wrapperOf source.primitive → conversion ctx type target.type ≠ .illegal)
  (stackEq : s.frame.stack = type :: rest)

include carries contains fromNumber toNumber legal stackEq

/-- What the code for an operand that carries a number does. -/
theorem Carries.exists_conversion :
    ∃ t code, Writes ctx type target.type code s t ∧
      ((∀ below, convertAll boxes code (operand :: below) =
          some (.operands (target.value (target.wrap n) :: below))) ∨
        type = .wrapperOf source.primitive ∧ source ≠ target ∧
          ctx.table.isSubtype (.wrapperOf target.primitive) (.wrapperOf source.primitive) = true ∧
          ∀ below, convertAll boxes code (operand :: below) = some .classCast) := by
  have numeric := conversion_ne_illegal ctx fromNumber toNumber
  have legal : conversion ctx type target.type ≠ .illegal := by
    cases carries with
    | word => exact numeric
    | boxed => exact legal rfl
  obtain ⟨t, ran, converted⟩ := convertTop_converts ctx stackEq legal
  refine ⟨t, _, ⟨(castTop_apply ctx target.type stackEq).trans ran, ?_,
    congrArg (·.instrs) converted.output_eq⟩, carries.convertAll_eq contains legal numeric⟩
  rw [coerceTop_apply ctx target.type stackEq]
  exact if_congr Iff.rfl ran rfl

/-- There is no exception where the table does not declare one wrapper class below
another: a cast, and an assignment where it is allowed, writes code that computes
the number modulo the size of the target. -/
theorem Carries.conversion_exact
    (unrelated :
      ∀ p q : Primitive, ctx.table.isSubtype (.wrapperOf p) (.wrapperOf q) = true → p = q) :
    ∃ t code, Writes ctx type target.type code s t ∧ ∀ below, convertAll boxes code (operand :: below) =
        some (.operands (target.value (target.wrap n) :: below)) := by
  obtain ⟨t, code, writes, computes | ⟨-, differ, below, -⟩⟩ :=
    carries.exists_conversion contains fromNumber toNumber legal stackEq
  · exact ⟨t, code, writes, computes⟩
  · exact absurd (primitive_injective (unrelated _ _ below)).symm differ

end

/-- A cast to an integral type computes the only number of that type that agrees
with the given one in the bits of the type, and so keeps the number if it widens.
An assignment does the same where it is allowed.  The only exception is a table that
declares the wrapper class of the target below that of the source: there the object
is checked for a class that it is not of. -/
theorem conversion_computes (ctx : Context) (target : IntType) {type : JType} {operand : Value}
    {s : State} {rest : List JType} (number : source ≠ .boolean) (targetNumber : target ≠ .boolean)
    (least_le : source.least ≤ n) (le_greatest : n ≤ source.greatest)
    (carries : source.Carries boxes n type operand)
    (legal : type = .wrapperOf source.primitive → conversion ctx type target.type ≠ .illegal)
    (stackEq : s.frame.stack = type :: rest) :
    ∃ m t code,
      (∀ k, target.Represents n k ↔ k = m) ∧
      ((conversion ctx type target.type).isWidening = true → m = n) ∧
      castTop ctx target.type s = .ok () t ∧
      coerceTop ctx target.type s =
        (if (conversion ctx type target.type).isImplicit then .ok () t
          else .error (.noConversion type target.type) s) ∧
      t.output.instrs = s.output.instrs ++ code.toArray ∧
      ((∀ below, convertAll boxes code (operand :: below) =
          some (.operands (target.value m :: below))) ∨
        type = .wrapperOf source.primitive ∧ source ≠ target ∧
          ctx.table.isSubtype (.wrapperOf target.primitive) (.wrapperOf source.primitive) = true ∧
          ∀ below, convertAll boxes code (operand :: below) = some .classCast) := by
  have contains : source.Contains n := contains_iff_range.mpr ⟨least_le, le_greatest⟩
  obtain ⟨t, code, writes, outcome⟩ :=
    carries.exists_conversion contains number targetNumber legal stackEq
  exact ⟨target.wrap n, t, code, fun k => represents_iff,
    fun widening => contains.widen (carries.converts_of_isWidening widening), writes.cast,
    writes.coerce, writes.output, outcome⟩

end IntType

namespace Sample

open Gen

/-- Only the standard classes are known. -/
def standardContext : Context :=
  { boxingContext with table := .javaLang }

def shortOnTop : State :=
  { frame := { stack := [.short], depth := 1, maxStack := 1 } }

def boxedCharOnTop : State :=
  { frame := { stack := [.wrapperOf .char], depth := 1, maxStack := 1 } }

/-- The `short` minus one becomes the greatest `char`, and an object with that `char`
becomes a `long`, both without a cast. -/
theorem greatestChar_conversion_computes :
    (∃ t code, castTop standardContext .char shortOnTop = .ok () t ∧
      coerceTop standardContext .char shortOnTop = .ok () t ∧ t.output.instrs = code.toArray ∧
      convertAll (fun _ => none) code [.int (-1)] = some (.operands [.int 65535])) ∧
    ∃ t code, castTop standardContext .long boxedCharOnTop = .ok () t ∧
      coerceTop standardContext .long boxedCharOnTop = .ok () t ∧ t.output.instrs = code.toArray ∧
      convertAll (fun _ => some ⟨.char, .int 65535⟩) code [.reference (.object 0)] =
        some (.operands [.long 65535]) := by
  constructor
  · have implicit : (conversion standardContext .short .char).isImplicit = true := by decide +kernel
    have carries : IntType.short.Carries (fun _ => none) (-1) .short (.int (-1)) := .word
    obtain ⟨m, t, code, isResult, -, cast, coerced, written, runs⟩ :=
      IntType.conversion_computes (s := shortOnTop) standardContext .char (by decide) (by decide)
        (by decide) (by decide) carries (fun same => by contradiction) rfl
    obtain rfl : 65535 = m := (isResult 65535).mp ⟨by decide, by decide, by decide⟩
    rcases runs with runs | ⟨isWrapper, -⟩
    · exact ⟨t, code, cast, coerced.trans (if_pos implicit), by simpa [shortOnTop] using written, runs []⟩
    · contradiction
  · have implicit : (conversion standardContext (.wrapperOf .char) .long).isImplicit = true := by
      decide +kernel
    have carries : IntType.char.Carries (fun _ => some ⟨.char, .int 65535⟩) 65535
        (.wrapperOf .char) (.reference (.object 0)) := .boxed rfl
    obtain ⟨m, t, code, isResult, -, cast, coerced, written, runs⟩ :=
      IntType.conversion_computes (s := boxedCharOnTop) standardContext .long (by decide)
        (by decide) (by decide) (by decide) carries
        (fun _ => IntType.legal_of_isImplicit implicit) rfl
    obtain rfl : 65535 = m := (isResult 65535).mp ⟨by decide, by decide, by decide⟩
    rcases runs with runs | ⟨-, -, declared, -⟩
    · exact ⟨t, code, cast, coerced.trans (if_pos implicit), by simpa [boxedCharOnTop] using written, runs []⟩
    · have same : Primitive.long = .char := MemberTable.eq_of_javaLang_isSubtype declared
      contradiction

end Sample

end JvmAssembler
