import Mathlib
import JvmAssembler.Proofs.CallChecks
import JvmAssembler.Proofs.ExpressionRun
import JvmAssembler.Proofs.FrameLaw

/-!
# Comparing a number with a reference that may hold its wrapper

A reference can be converted to a numeric type, if the wrapper of that type is
below it, only by a check for the wrapper.  Such a conversion needs a cast.

Main statement: a comparison of a number with such a reference is refused for
every operator and sense, once both operands are written.  With the cast spelled
out, it writes the operands, the check, the unboxing call and a branch on
numbers, which is taken exactly if the comparison has the wanted sense.
-/

namespace JvmAssembler

open Gen

/-! ## Types -/

/-- What is converted by a check for a wrapper is neither `null` nor primitive. -/
theorem Conversion.of_classify_eq_checkedUnboxing {table : MemberTable} {narrow : Bool}
    {r : JType} {p : Primitive}
    (checked : classify table narrow r (.primitive p) = .checkedUnboxing) :
    r ≠ .null ∧ r.asPrimitive? = none := by
  constructor
  · rintro rfl
    simp [classify, JType.isVoid] at checked
  · cases r with
    | primitive q =>
        have never : ofPrimitives narrow q p ≠ .checkedUnboxing := by
          unfold ofPrimitives
          repeat' split
          all_goals simp
        simp only [classify] at checked
        split at checked
        · cases checked
        · exact absurd checked (by simpa [JType.isVoid] using never)
    | _ => rfl

theorem Primitive.binaryPromotion?_self {p : Primitive} (numeric : p.isNumeric = true) :
    JType.binaryPromotion? (.primitive p) (.primitive p) = some p.computational := by
  cases p <;> first | rfl | cases numeric

theorem Primitive.not_isBooleanLike (p : Primitive) (numeric : p.isNumeric = true) :
    (JType.primitive p).isBooleanLike = false := by
  cases p <;> first | rfl | cases numeric

theorem Primitive.floating_of_computational (p : Primitive) :
    p.computational = .float ∨ p.computational = .double → p = .float ∨ p = .double := by
  cases p <;> decide

/-! ## Other operands below -/

/-- States that differ at most in their operands, in the shapes of labels and in
the log. -/
structure State.Restacks (s s' : State) : Prop where
  frame_eq : ∃ stack depth maxStack shapes,
    s'.frame = { s.frame with stack, depth, maxStack, shapes }
  output_eq : s'.output = s.output
  probed_eq : s'.probed = s.probed
  depth_eq : s'.depth = s.depth

theorem State.Restacks.trans {s t u : State} (first : s.Restacks t) (second : t.Restacks u) :
    s.Restacks u where
  frame_eq := by
    obtain ⟨_, _, _, _, frame⟩ := first.frame_eq
    obtain ⟨stack, depth, maxStack, shapes, frame'⟩ := second.frame_eq
    exact ⟨stack, depth, maxStack, shapes, by rw [frame', frame]⟩
  output_eq := second.output_eq.trans first.output_eq
  probed_eq := second.probed_eq.trans first.probed_eq
  depth_eq := second.depth_eq.trans first.depth_eq

namespace Gen

/-- A conversion without instructions changes the type of the top alone. -/
theorem restacks_of_convertTop {ctx : Context} {s t : State} {source target : JType}
    (silent : (conversion ctx source target).instrs source target = [])
    (run : convertTop ctx source target (conversion ctx source target) s = .ok () t) :
    s.Restacks t := by
  rw [convertTop_conversion, silent] at run
  split at run
  · obtain ⟨-, rfl⟩ := pure_eq_ok.mp run
    exact ⟨⟨_, _, _, _, rfl⟩, rfl, rfl, rfl⟩
  · split at run
    · exact (throw_eq_ok.mp run).elim
    · obtain ⟨frame, ran, rfl⟩ := onFrame_eq_ok.mp run
      obtain ⟨top, rest, -, -, rfl⟩ := Frame.replaceTop_eq_ok.mp ran
      exact ⟨⟨_, _, _, _, rfl⟩, rfl, rfl, rfl⟩

/-- A fragment that can be generated on any stack writes the same on every
one. -/
theorem Answers.restacked {ctx : Context} {s s' t : State} {pos : Position} {ops : Fragment}
    {ty : JType} {locals : LocalTable} {types : Position → Option JType}
    (answers : Answers locals (codeFrom ctx pos 0 ops) ty) (prepared : Prepared locals types s)
    (below' : s'.ShapesBelow) (restacks : s.Restacks s')
    (run : value (codeFrom ctx pos 0 ops) s = .ok ty t) :
    ∃ t', value (codeFrom ctx pos 0 ops) s' = .ok ty t' ∧ t.Restacks t' := by
  have below : s.ShapesBelow := prepared.shapesBelow
  -- without operands at first, then on either stack
  obtain ⟨dry, ran⟩ := answers (s.withStack []) prepared.alive prepared.locals_eq
  obtain ⟨_, base, alone, rfl, -⟩ :=
    succeeds_of_dryRun (s := s.withStack []) below prepared.nested ran
  have framed := fun low => (ops.code_framed ctx pos low s.output.nextLabel).value
  obtain ⟨stack, depth, maxStack, shapes, frame⟩ := restacks.frame_eq
  obtain ⟨_, run', atop⟩ := framed s.frame.stack (State.ShapesBelow.atop (s := s.withStack []) below
    below ⟨s.frame.depth, s.frame.maxStack, s.frame.shapes, rfl⟩ rfl rfl rfl) alone
  cases run.symm.trans run'
  obtain ⟨t', ran', atop'⟩ := framed stack (State.ShapesBelow.atop (s := s.withStack []) below below'
    ⟨depth, maxStack, shapes, by simp [State.withStack, frame]⟩ restacks.output_eq
    restacks.probed_eq restacks.depth_eq) alone
  refine ⟨t', ran', ?_, ?_, ?_, ?_⟩
  · obtain ⟨_, _, _, frame⟩ := atop.frame_eq
    obtain ⟨_, _, _, frame'⟩ := atop'.frame_eq
    exact ⟨_, _, _, _, by rw [frame', frame]⟩
  · rw [atop'.output_eq, atop.output_eq]
  · rw [atop'.probed_eq, atop.probed_eq]
  · rw [atop'.depth_eq, atop.depth_eq]

end Gen

/-! ## Comparisons as they are generated -/

/-- The label can be the target of a jump with these operands. -/
def State.Admits (s : State) (target : Label) (stack : List JType) : Prop :=
  ∀ shape, s.shape? target = some shape → shape = stack

namespace State.Admits

variable {s t : State} {target : Label} {stack : List JType}

theorem emits {code : List Instr} {stack' : List JType} (admits : s.Admits target stack)
    (emits : Emits s t code stack') : t.Admits target stack :=
  fun shape known => admits shape (by rwa [State.shape?, ← emits.shapes_eq])

theorem later (admits : s.Admits target stack) (old : target ∈ s.old) (later : Later [] s t) :
    t.Admits target stack :=
  fun shape known => admits shape (by rwa [← later.shape_eq target old List.not_mem_nil])

end State.Admits

namespace Gen

variable {ctx : Context} {s s₁ s₂ t u v : State} {p : Primitive} {r : JType}
variable {left right : Operand}

/-- Two numbers of one type are promoted. -/
theorem compareBranch_of_same (numeric : p.isNumeric = true)
    (probedLeft : probe ctx left s = .ok (.primitive p) s₁)
    (probedRight : probe ctx right s₁ = .ok (.primitive p) s₂)
    (op : RelOp) (nan sense : Bool) (target : Label) :
    compareBranch ctx op left right nan sense target s =
      (do
        comparands ctx left right (.primitive p.computational)
        numericBranch ctx p.computational (if sense then op else op.negate)
          (if sense then nan else !nan) target) s₂ := by
  unfold compareBranch
  rw [bind_apply_of_ok probedLeft, bind_apply_of_ok probedRight]
  simp [JType.isReference, p.not_isBooleanLike numeric, Primitive.binaryPromotion?_self numeric]

/-- A number and a reference that is no wrapper are generated as they are, and
the reference is converted as in an assignment. -/
theorem compareBranch_of_reference (numeric : p.isNumeric = true) (notNull : r ≠ .null)
    (notPrimitive : r.asPrimitive? = none) (unwrapped : r.unboxed? = none)
    (probedLeft : probe ctx left s = .ok (.primitive p) s₁)
    (probedRight : probe ctx right s₁ = .ok r s₂)
    (op : RelOp) (nan sense : Bool) (target : Label) :
    compareBranch ctx op left right nan sense target s =
      (do
        let _ ← value left.code
        let _ ← value right.code
        coerceTop ctx (.primitive p)
        numericBranch ctx p.computational (if sense then op else op.negate)
          (if sense then nan else !nan) target) s₂ := by
  have notBoolean : r.isBooleanLike = false := by
    cases r <;> simp_all [JType.isBooleanLike, JType.isBoolean, JType.asPrimitive?]
  have unpromoted : JType.binaryPromotion? (.primitive p) r = none := by
    simp [JType.binaryPromotion?, JType.numericOperand?, notPrimitive, unwrapped]
  unfold compareBranch
  rw [bind_apply_of_ok probedLeft, bind_apply_of_ok probedRight]
  simp only [JType.isReference, p.not_isBooleanLike numeric, notBoolean, unpromoted, notNull,
    Bool.or_self, Bool.false_and, Bool.false_eq_true, if_false, decide_false, reduceCtorEq]
  cases r with
  | primitive q => simp [JType.asPrimitive?] at notPrimitive
  | _ => rfl

theorem compareBranch_refuses (numeric : p.isNumeric = true) (unwrapped : r.unboxed? = none)
    (checked : conversion ctx r (.primitive p) = .checkedUnboxing)
    (probedLeft : probe ctx left s = .ok (.primitive p) s₁)
    (probedRight : probe ctx right s₁ = .ok r s₂)
    (valuedLeft : value left.code s₂ = .ok (.primitive p) u)
    (valuedRight : value right.code u = .ok r v) (op : RelOp) (nan sense : Bool) (target : Label) :
    compareBranch ctx op left right nan sense target s =
      .error (.noConversion r (.primitive p)) v := by
  obtain ⟨notNull, notPrimitive⟩ := Conversion.of_classify_eq_checkedUnboxing checked
  obtain ⟨-, rest, stackEq, -⟩ := value_eq_ok.mp valuedRight
  have peeked : peek v = .ok r v := peek_eq_ok.mpr ⟨⟨rest, stackEq⟩, rfl⟩
  rw [compareBranch_of_reference numeric notNull notPrimitive unwrapped probedLeft probedRight,
    bind_apply_of_ok valuedLeft, bind_apply_of_ok valuedRight]
  apply bind_apply_of_error
  unfold coerceTop
  rw [bind_apply_of_ok peeked]
  simp only [checked, Conversion.isImplicit, Bool.false_eq_true, if_false]
  rfl

/-! ## The parts of a comparison -/

/-- What a comparison of two numbers of a computational type writes. -/
def numericInstrs (ty : Primitive) (op : RelOp) (nan : Bool) (target : Label) : List Instr :=
  match comparison? ty op nan with
  | some code => [.op code, .jump op.zeroBranch target]
  | none => [.jump op.intBranch target]

namespace Succeeds

theorem jump {code : Opcode} {target : Label} (admits : s.Admits target s.frame.stack) :
    Succeeds (jump ctx code target) s fun _ t => t.code = s.code ++ [.jump code target] := by
  obtain ⟨frame, merged⟩ : ∃ frame, Frame.jumpTo target s.frame = .ok () frame :=
    Frame.merge_of_agrees admits
  obtain ⟨t, run⟩ : ∃ t, Gen.jump ctx code target s = .ok () t := by
    unfold Gen.jump
    rw [bind_apply_of_ok (onFrame_eq_ok.mpr ⟨frame, merged, rfl⟩)]
    split <;> exact ⟨_, rfl⟩
  exact ⟨(), t, run, (jump_marks run).1.instrs_eq⟩

theorem numericBranch (ctx : Context) {first second : JType} {rest : List JType} {target : Label}
    (stackEq : s.frame.stack = second :: first :: rest) (admits : s.Admits target rest)
    (ty : Primitive) (op : RelOp) (nan : Bool) :
    Succeeds (numericBranch ctx ty op nan target) s fun _ t =>
      t.code = s.code ++ numericInstrs ty op nan target := by
  refine (popN (by simp [stackEq])).bind fun _ u popped => ?_
  unfold numericInstrs
  cases found : comparison? ty op nan with
  | some code =>
      obtain ⟨plain, -⟩ := Instr.effect?_comparison found
      refine (emit plain).bind fun _ v emitted => ?_
      have emits := popped.trans emitted
      have stack : v.frame.stack = rest := by
        rw [emitted.stack_eq, popped.stack_eq, stackEq]
        rfl
      refine (jump (stack ▸ admits.emits emits)).mono fun _ t wrote => ?_
      rw [wrote, State.code, emits.instrs_eq]
      simp [State.code]
  | none =>
      have stack : u.frame.stack = rest := by
        rw [popped.stack_eq, stackEq]
        rfl
      refine (jump (stack ▸ admits.emits popped)).mono fun _ t wrote => ?_
      rw [wrote, State.code, popped.instrs_eq]
      simp [State.code]

/-- A number is promoted without an instruction. -/
theorem promote (ctx : Context) {rest : List JType} (numeric : p.isNumeric = true)
    (stackEq : s.frame.stack = .primitive p :: rest) :
    Succeeds (Gen.coerceTop ctx (.primitive p.computational)) s fun _ t =>
      Emits s t [] (.primitive p.computational :: rest) ∧ s.Restacks t := by
  let converts := conversion ctx (.primitive p) (.primitive p.computational)
  have promotes : converts.isImplicit = true ∧
      converts.instrs (.primitive p) (.primitive p.computational) = [] := by
    unfold converts conversion
    cases p <;> cases ctx.config.narrowReinterpretation <;> first | exact ⟨rfl, rfl⟩ | cases numeric
  refine (peek stackEq).bind ?_
  rintro source t ⟨rfl, rfl⟩
  change Succeeds (if converts.isImplicit then _ else _) s _
  rw [if_pos promotes.1]
  have legal : converts ≠ .illegal := by
    intro illegal
    rw [illegal] at promotes
    exact absurd promotes.1 (by decide)
  obtain ⟨_, t, run, emits⟩ := convertTop stackEq legal rfl
  rw [promotes.2] at emits
  exact ⟨(), t, run, emits, restacks_of_convertTop promotes.2 run⟩

theorem castTop {rest : List JType}
    (checked : conversion ctx r (.primitive p) = .checkedUnboxing)
    (stackEq : s.frame.stack = r :: rest) :
    Succeeds (castTop ctx (.primitive p)) s fun _ t =>
      Emits s t [.type .checkcast (.wrapperOf p), Conversion.unboxInstr p] (.primitive p :: rest) := by
  rw [castTop_eq]
  refine (peek stackEq).bind ?_
  rintro source t ⟨rfl, rfl⟩
  have legal : conversion ctx r (.primitive p) ≠ .illegal := by simp [checked]
  have converts := convertTop stackEq legal rfl
  simp only [checked] at converts ⊢
  exact converts

end Succeeds

/-- A value that is cast once it is there. -/
theorem value_cast {pos : Position} {fragment : Fragment}
    (checked : conversion ctx r (.primitive p) = .checkedUnboxing)
    (valued : value (codeFrom ctx pos 0 fragment) s = .ok r t) (alive : t.frame.alive = true)
    (nested : t.depth ≠ 0) :
    ∃ rest u, t.frame.stack = r :: rest ∧
      Emits t u [.type .checkcast (.wrapperOf p), Conversion.unboxInstr p]
        (.primitive p :: rest) ∧
      value (codeFrom ctx pos 0 (fragment ++ [.cast (.primitive p)])) s = .ok (.primitive p) u := by
  obtain ⟨generated, rest, stackEq, counted⟩ := value_eq_ok.mp valued
  obtain ⟨_, u, converted, emits⟩ :=
    Succeeds.castTop (s := { t with depth := t.depth + 1 }) checked stackEq
  have left : Emits t (u.leave t.depth) _ _ :=
    { emits with
      probed_eq := by simp [State.leave, nested, emits.probed_eq]
      depth_eq := rfl }
  refine ⟨rest, u.leave t.depth, stackEq, left,
    value_eq_ok.mpr ⟨?_, rest, emits.stack_eq, counted⟩⟩
  exact codeFrom_append_eq_ok.mpr ⟨t, generated,
    codeFrom_singleton_eq_ok.mpr ⟨alive, u, converted, rfl⟩⟩

/-! ## Operands that are value chains -/

/-- A cast goes on with a value chain. -/
theorem chains_of_cast {fragment : Fragment} {ty : JType}
    (chains : ∀ operand ∈ fragment :: operandsIn fragment, operand.isValueChain = true) :
    ∀ operand ∈ (fragment ++ [.cast ty]) :: operandsIn (fragment ++ [.cast ty]),
      operand.isValueChain = true := by
  obtain ⟨chain, inner⟩ := List.forall_mem_cons.mp chains
  have sameOperands : operandsIn (fragment ++ [.cast ty]) = operandsIn fragment := by
    simp [operandsIn_append, operandsIn, Op.operands]
  rw [sameOperands]
  refine List.forall_mem_cons.mpr ⟨?_, inner⟩
  cases fragment with
  | nil => cases chain
  | cons op rest => simpa [Fragment.isValueChain, Op.isModifier] using chain

variable {locals : LocalTable} {types : Position → Option JType} {pos : Position}
variable {operand : Fragment} {ty : JType}

theorem Prepared.generated (prepared : Prepared locals types s)
    (known : KnownOperand ctx locals types pos operand)
    (run : value (codeFrom ctx pos 0 operand) s = .ok ty t) :
    Prepared locals types t ∧ t.frame.stack = ty :: s.frame.stack ∧ Later [] s t := by
  obtain ⟨-, -, goes⟩ := known.ofOperand.evaluates.value prepared.toReady run
  have nested : t.depth ≠ 0 := by
    rw [depth_eq_of_value run]
    exact prepared.nested
  exact ⟨⟨goes.ready prepared.toReady, nested⟩, goes.stack_eq, goes.later⟩

/-- A run of a value chain tells what dry runs of it give anywhere. -/
theorem Prepared.answers (prepared : Prepared locals types s)
    (known : KnownOperand ctx.anew locals types pos operand)
    (run : value (codeFrom ctx.anew pos 0 operand) s = .ok ty t) :
    Answers locals (codeFrom ctx.anew pos 0 operand) ty := by
  obtain ⟨dry, ran, -⟩ :=
    (value_agrees_dryRun pos operand prepared.shapesBelow prepared.nested).exists_ok run
  rw [← prepared.locals_eq]
  exact (codeFrom_lifts ctx pos operand
    (List.forall_mem_cons.mpr ⟨known.chain, known.inner.chains⟩)).answers prepared.alive ran

theorem Answers.probe (answers : Answers locals (codeFrom ctx.anew pos 0 operand) ty)
    (alive : s.frame.alive = true) (sameLocals : s.frame.locals = locals) :
    ∃ log, probe ctx.anew ⟨pos, codeFrom ctx.anew pos 0 operand⟩ s = .ok ty { s with log } := by
  obtain ⟨dry, ran⟩ := answers s alive sameLocals
  exact ⟨dry.log, by simp [Gen.probe, probeFresh, ran]⟩

theorem Prepared.dryRun (prepared : Prepared locals types s) : Prepared locals types s.dryRun where
  locals_eq := prepared.locals_eq
  matched := prepared.matched
  shapesBelow := by simp [State.ShapesBelow, State.shape?, State.dryRun, Frame.fork]
  knows := prepared.knows
  alive := prepared.alive
  nested := Nat.succ_ne_zero _

theorem Prepared.withLog (prepared : Prepared locals types s) (log : Array LogLine) :
    Prepared locals types { s with log } :=
  ⟨⟨⟨prepared.locals_eq, prepared.matched, prepared.shapesBelow, prepared.knows⟩, prepared.alive⟩,
    prepared.nested⟩

section Anew

variable {left right : Fragment} (prepared : Prepared locals types s)
variable (knownLeft : KnownOperand ctx.anew locals types (0 :: pos) left)
variable (knownRight : KnownOperand ctx.anew locals types (1 :: pos) right)
variable (valuedLeft : value (codeFrom ctx.anew (0 :: pos) 0 left) s = .ok (.primitive p) u)
variable (valuedRight : value (codeFrom ctx.anew (1 :: pos) 0 right) u = .ok r v)

include prepared knownLeft knownRight valuedLeft valuedRight

/-- Probing both operands does not change what generating them writes. -/
theorem operands_withLog (log : Array LogLine) :
    ∃ u' v', value (codeFrom ctx.anew (0 :: pos) 0 left) { s with log } = .ok (.primitive p) u' ∧
      value (codeFrom ctx.anew (1 :: pos) 0 right) u' = .ok r v' ∧ v'.code = v.code := by
  have answersLeft := prepared.answers knownLeft valuedLeft
  obtain ⟨preparedRight, -, -⟩ := prepared.generated knownLeft valuedLeft
  have answersRight := preparedRight.answers knownRight valuedRight
  have probed : s.Restacks { s with log } := ⟨⟨_, _, _, _, rfl⟩, rfl, rfl, rfl⟩
  obtain ⟨u', valuedLeft', restacked⟩ :=
    answersLeft.restacked prepared (prepared.withLog log).shapesBelow probed valuedLeft
  obtain ⟨preparedRight', -, -⟩ := (prepared.withLog log).generated knownLeft valuedLeft'
  obtain ⟨v', valuedRight', restacked'⟩ :=
    answersRight.restacked preparedRight preparedRight'.shapesBelow restacked valuedRight
  exact ⟨u', v', valuedLeft', valuedRight', by rw [State.code, restacked'.output_eq, State.code]⟩

variable (numeric : p.isNumeric = true)
variable (checked : conversion ctx.anew r (.primitive p) = .checkedUnboxing)

include numeric checked

/-- Without memory: the comparison is refused once both operands are written. -/
theorem compareBranch_anew_refuses (unwrapped : r.unboxed? = none) (op : RelOp) (nan sense : Bool)
    (target : Label) :
    ∃ t, compareBranch ctx.anew op ⟨0 :: pos, codeFrom ctx.anew (0 :: pos) 0 left⟩
        ⟨1 :: pos, codeFrom ctx.anew (1 :: pos) 0 right⟩ nan sense target s =
          .error (.noConversion r (.primitive p)) t ∧ t.code = v.code := by
  have answersLeft := prepared.answers knownLeft valuedLeft
  obtain ⟨preparedRight, -, -⟩ := prepared.generated knownLeft valuedLeft
  have answersRight := preparedRight.answers knownRight valuedRight
  obtain ⟨log, probedLeft⟩ := answersLeft.probe prepared.alive prepared.locals_eq
  obtain ⟨log', probedRight⟩ := answersRight.probe (prepared.withLog log).alive
    (prepared.withLog log).locals_eq
  obtain ⟨u', t, valuedLeft', valuedRight', sameCode⟩ :=
    operands_withLog prepared knownLeft knownRight valuedLeft valuedRight log'
  exact ⟨t, compareBranch_refuses numeric unwrapped checked probedLeft probedRight valuedLeft'
    valuedRight' op nan sense target, sameCode⟩

/-- The operands with the cast are generated, promoted and compared. -/
theorem comparands_cast (op : RelOp) (nan : Bool) {target : Label} (old : target ∈ s.old)
    (admits : s.Admits target s.frame.stack) :
    Succeeds
      (do
        comparands ctx.anew ⟨0 :: pos, codeFrom ctx.anew (0 :: pos) 0 left⟩
          ⟨1 :: pos, codeFrom ctx.anew (1 :: pos) 0 (right ++ [.cast (.primitive p)])⟩
          (.primitive p.computational)
        numericBranch ctx.anew p.computational op nan target)
      s fun _ t => t.code =
        v.code ++ [.type .checkcast (.wrapperOf p), Conversion.unboxInstr p] ++
          numericInstrs p.computational op nan target := by
  obtain ⟨prepared₁, stack₁, later₁⟩ := prepared.generated knownLeft valuedLeft
  have answersRight := prepared₁.answers knownRight valuedRight
  obtain ⟨_, s₂, promotedLeft, emits₂, restacked⟩ := Succeeds.promote ctx.anew numeric stack₁
  have prepared₂ := prepared₁.emits emits₂
  obtain ⟨s₃, valuedRight', restacked'⟩ :=
    answersRight.restacked prepared₁ prepared₂.shapesBelow restacked valuedRight
  obtain ⟨prepared₃, stack₃, later₃⟩ := prepared₂.generated knownRight valuedRight'
  obtain ⟨rest, s₄, stack₄, emits₄, cast⟩ :=
    value_cast checked valuedRight' prepared₃.alive prepared₃.nested
  obtain rfl : s₂.frame.stack = rest := (List.cons.inj (stack₃.symm.trans stack₄)).2
  obtain ⟨_, s₅, promotedRight, emits₅, -⟩ :=
    Succeeds.promote ctx.anew numeric emits₄.stack_eq
  rw [emits₂.stack_eq] at emits₅
  have old₂ : target ∈ s₂.old := by
    rw [State.mem_old, emits₂.nextLabel_eq]
    exact later₁.old_subset old
  have emits := emits₄.trans emits₅
  have admits₅ := (((admits.later old later₁).emits emits₂).later old₂ later₃).emits emits
  obtain ⟨_, t, branched, wrote⟩ :=
    Succeeds.numericBranch ctx.anew emits₅.stack_eq admits₅ p.computational op nan
  refine ⟨(), t, ?_, ?_⟩
  · simp only [comparands, bind_assoc]
    rw [bind_apply_of_ok valuedLeft, bind_apply_of_ok promotedLeft, bind_apply_of_ok cast,
      bind_apply_of_ok promotedRight]
    exact branched
  · have written : s₅.code = v.code ++
        [.type .checkcast (.wrapperOf p), Conversion.unboxInstr p] := by
      simpa [State.code, restacked'.output_eq] using emits.instrs_eq
    exact wrote.trans (by rw [written])

/-- Without memory: with a cast of the right operand the comparison succeeds. -/
theorem compareBranch_anew_casts (op : RelOp) (nan sense : Bool) {target : Label}
    (old : target ∈ s.old) (admits : s.Admits target s.frame.stack) :
    Succeeds
      (compareBranch ctx.anew op ⟨0 :: pos, codeFrom ctx.anew (0 :: pos) 0 left⟩
        ⟨1 :: pos, codeFrom ctx.anew (1 :: pos) 0 (right ++ [.cast (.primitive p)])⟩ nan sense target)
      s fun _ t => t.code =
        v.code ++ [.type .checkcast (.wrapperOf p), Conversion.unboxInstr p] ++
          numericInstrs p.computational (if sense then op else op.negate)
            (if sense then nan else !nan) target := by
  have answersLeft := prepared.answers knownLeft valuedLeft
  obtain ⟨preparedRight, -, -⟩ := prepared.generated knownLeft valuedLeft
  have answersRight := preparedRight.answers knownRight valuedRight
  have answersCast : Answers locals
      (codeFrom ctx.anew (1 :: pos) 0 (right ++ [.cast (.primitive p)])) (.primitive p) := by
    obtain ⟨dry, ran⟩ := answersRight u preparedRight.alive preparedRight.locals_eq
    obtain ⟨preparedDry, -, -⟩ := preparedRight.dryRun.generated knownRight ran
    obtain ⟨_, _, -, -, cast⟩ := value_cast checked ran preparedDry.alive preparedDry.nested
    rw [← preparedRight.locals_eq]
    exact (codeFrom_lifts ctx (1 :: pos) _ (chains_of_cast (List.forall_mem_cons.mpr
      ⟨knownRight.chain, knownRight.inner.chains⟩))).answers preparedRight.alive cast
  obtain ⟨log, probedLeft⟩ := answersLeft.probe prepared.alive prepared.locals_eq
  obtain ⟨log', probedRight⟩ := answersCast.probe (prepared.withLog log).alive
    (prepared.withLog log).locals_eq
  obtain ⟨u', v', valuedLeft', valuedRight', sameCode⟩ :=
    operands_withLog prepared knownLeft knownRight valuedLeft valuedRight log'
  unfold Succeeds
  rw [compareBranch_of_same numeric probedLeft probedRight, ← sameCode]
  exact comparands_cast (prepared.withLog log') knownLeft knownRight valuedLeft' valuedRight' numeric
    checked _ _ old admits

end Anew

/-! ## Running a branch on numbers -/

/-- The branch on two numbers is taken if the comparison holds. -/
theorem numericInstrs_runs (setting : Setting) {op : RelOp} {nan taken : Bool} {x y : Value}
    (promoted : p.isPromoted) (isLeft : x.category = p.category) (isRight : y.category = p.category)
    (consistent : p = .float ∨ p = .double → op.Consistent nan)
    (compared : op.compare? nan x y = some taken) (target : Label) :
    Runs setting (numericInstrs p op nan target) [y, x] [] (if taken then some target else none)
      [] := by
  unfold numericInstrs
  cases found : comparison? p op nan with
  | some code =>
      obtain ⟨calculation, order, isCalculation, applied, result⟩ :=
        comparison?_orders isLeft isRight consistent compared found
      obtain ⟨plain, effect⟩ := Instr.effect?_comparison found
      have compares : Runs setting [.op code] [y, x] [] none [.int (signOf order)] :=
        .of_calculation isCalculation (by simp [Instr.isLoad, effect]) applied
      have branches : Runs setting [.jump op.zeroBranch target] [.int (signOf order)] []
          (if taken then some target else none) [] :=
        .of_branch (RelOp.test?_zeroBranch op) fun stack => by simp [Test.apply, result]
      exact compares.append branches
  | none =>
      obtain rfl : p = .int := by
        rcases promoted with rfl | rfl | rfl | rfl
        · rfl
        all_goals simp [comparison?] at found
      cases x <;> cases y <;> simp [Value.category, Primitive.category] at isLeft isRight
      refine .of_branch (RelOp.test?_intBranch op) fun stack => ?_
      have result := Option.some.inj compared
      simp [Test.apply, ← result]

end Gen

/-! ## Comparisons with memory -/

/-- A reachable position inside an operation. -/
structure State.Inside (s : State) : Prop where
  alive : s.frame.alive = true
  nested : s.depth ≠ 0
  matched : s.frame.locals.Matched
  shapesBelow : s.ShapesBelow

/-- What is remembered of the operands of a condition is what their dry runs
give. -/
def State.Recalls (s : State) (ctx : Context) (pos : Position) (c : Cond) : Prop :=
  ∀ path operand ty, c.operandAt? path = some operand → s.probed[path.reverse ++ pos]? = some ty →
    Answers s.frame.locals (codeFrom ctx.anew (path.reverse ++ pos) 0 operand) ty

/-- The state with nothing remembered. -/
def State.forgotten (s : State) : State := { s with probed := ∅ }

section Memory

variable {ctx : Context} {s u v : State} {p : Primitive} {r : JType} {pos : Position}
variable {left right : Fragment}

theorem State.Recalls.sound {c : Cond} (recalls : s.Recalls ctx pos c) (inside : s.Inside) :
    Sound (codesAt ctx pos c.operandAt?) s.frame.locals s.frame.scopes s := by
  refine ⟨rfl, inside.matched, rfl, fun p ty code known isCode => ?_⟩
  obtain ⟨path, operand, found, rfl, rfl⟩ := isCode
  exact recalls path operand ty found known

theorem Agrees.of_common {α : Type} {result result' result'' : EStateM.Result Error State α}
    (first : Agrees Eq State.Matches result result')
    (second : Agrees Eq State.Matches result result'') :
    Agrees Eq State.Matches result' result'' := by
  cases first with
  | ok same =>
      cases second with
      | ok same' => exact .ok ⟨same'.frame.trans same.frame.symm, same'.output.trans same.output.symm⟩
  | error equal same =>
      cases second with
      | error equal' same' =>
          exact .error (equal.symm.trans equal')
            ⟨same'.frame.trans same.frame.symm, same'.output.trans same.output.symm⟩

/-- An action that follows the one without memory does what that one does where
nothing is remembered, in whichever way operands are probed. -/
theorem Gen.Follows.agrees_forgotten {α : Type} (action : Context → Gen α) {codes : CodeAt}
    (follows : ∀ ctx', ctx'.probing = .remembered → ctx'.anew = ctx.anew →
      Follows codes s.frame.locals true (action ctx') (action ctx.anew))
    (inside : s.Inside) (sound : Sound codes s.frame.locals s.frame.scopes s) :
    Agrees Eq State.Matches (action ctx s) (action ctx.anew s.forgotten) := by
  cases mode : ctx.probing with
  | remembered =>
      have same : s.Matches s.forgotten := ⟨rfl, rfl⟩
      exact (follows ctx mode rfl s.frame.scopes same ⟨sound, fun _ => inside.alive⟩).1
  | fresh =>
      -- both runs are without memory, and follow one that starts with nothing remembered
      have anew : ctx.anew = ctx := by rw [Context.anew, ← mode]
      have empty : Sound codes s.frame.locals s.frame.scopes s.forgotten :=
        ⟨rfl, inside.matched, rfl, by simp [State.forgotten]⟩
      have agrees (s' : State) (same : s.forgotten.Matches s') :=
        (follows { ctx with probing := .remembered } rfl rfl s.frame.scopes same
          ⟨empty, fun _ => inside.alive⟩).1
      rw [anew] at agrees ⊢
      exact (agrees s ⟨rfl, rfl⟩).of_common (agrees s.forgotten ⟨rfl, rfl⟩)

theorem codesAt_congr {ctx' : Context} (same : ctx'.anew = ctx.anew)
    (operandAt? : List Nat → Option Fragment) :
    codesAt ctx' pos operandAt? = codesAt ctx pos operandAt? := by
  unfold codesAt
  rw [same]

/-- A condition on value chains does what it does without memory. -/
theorem Cond.branch_agrees_forgotten {c : Cond} (inside : s.Inside) (recalls : s.Recalls ctx pos c)
    (chains : ∀ operand ∈ c.operands, operand.isValueChain = true) (sense : Bool)
    (target : Label) :
    Agrees Eq State.Matches (c.branch ctx pos sense target s)
      (c.branch ctx.anew pos sense target s.forgotten) := by
  refine Follows.agrees_forgotten (fun ctx => c.branch ctx pos sense target)
    (fun ctx' mode same => ?_) inside (recalls.sound inside)
  rw [← codesAt_congr same, ← same]
  exact c.branch_follows (transparent_codesAt mode) pos (stands_codesAt chains) sense target

/-- Two operands, generated one after the other. -/
def Gen.operandPair (ctx : Context) (pos : Position) (left right : Fragment) :
    Gen (JType × JType) := do
  let leftType ← value (left.code ctx (0 :: pos))
  let rightType ← value (right.code ctx (1 :: pos))
  pure (leftType, rightType)

theorem Gen.operandPair_eq_ok {leftType rightType : JType} :
    operandPair ctx pos left right s = .ok (leftType, rightType) v ↔
      ∃ u, value (left.code ctx (0 :: pos)) s = .ok leftType u ∧
        value (right.code ctx (1 :: pos)) u = .ok rightType v := by
  constructor
  · intro run
    obtain ⟨_, u, ofLeft, run⟩ := bind_eq_ok.mp run
    obtain ⟨_, w, ofRight, ended⟩ := bind_eq_ok.mp run
    obtain ⟨types, rfl⟩ := pure_eq_ok.mp ended
    obtain ⟨rfl, rfl⟩ := Prod.mk.inj types
    exact ⟨u, ofLeft, ofRight⟩
  · rintro ⟨u, ofLeft, ofRight⟩
    rw [operandPair, bind_apply_of_ok ofLeft, bind_apply_of_ok ofRight]
    rfl

/-- The right operand may be the beginning of the one in the comparison. -/
theorem Gen.operandPair_follows {codes : CodeAt} {locals : LocalTable} {op : RelOp} {nan : Bool}
    {more : List Op} (closes : Transparent ctx codes locals)
    (stands : Stands ctx codes pos (Cond.compare op left (right ++ more) nan).operands
      (Cond.compare op left (right ++ more) nan).operandAt?)
    (chain : right.isValueChain = true) :
    Follows codes locals true (operandPair ctx pos left right)
      (operandPair ctx.anew pos left right) := by
  have standsLeft := stands.operand 0 (by simp [Cond.operands]) fun _ => rfl
  have standsRight : Stands ctx codes (1 :: pos) (operandsIn right) (operandIn? 0 right) :=
    (stands.operand 1 (by simp [Cond.operands]) fun _ => rfl).inner.mono
      (by simp [operandsIn_append]) fun _ _ => operandIn?_append_of_left
  have followsRight := codeFrom_follows closes (1 :: pos) 0 right
    (Fragment.isValueStep_of_isValueChain chain) standsRight
  have ends (types : JType × JType) :
      Follows codes locals false (pure types : Gen (JType × JType)) (pure types) := .pure types
  exact (standsLeft.follows closes).value.anywhere.seq (by simp) fun _ _ =>
    followsRight.value.seq (by simp) fun _ _ => ends _

/-- Two operands that are generated give the same without memory. -/
theorem operands_forgotten (inside : s.Inside) {op : RelOp} {nan : Bool} (more : List Op)
    (recalls : s.Recalls ctx pos (.compare op left (right ++ more) nan))
    (chains : ∀ operand ∈ (Cond.compare op left (right ++ more) nan).operands,
      operand.isValueChain = true)
    (chain : right.isValueChain = true) {leftType rightType : JType}
    (valuedLeft : value (left.code ctx (0 :: pos)) s = .ok leftType u)
    (valuedRight : value (right.code ctx (1 :: pos)) u = .ok rightType v) :
    ∃ u' v', value (codeFrom ctx.anew (0 :: pos) 0 left) s.forgotten = .ok leftType u' ∧
      value (codeFrom ctx.anew (1 :: pos) 0 right) u' = .ok rightType v' ∧ v'.code = v.code := by
  have agrees : Agrees Eq State.Matches (operandPair ctx pos left right s)
      (operandPair ctx.anew pos left right s.forgotten) := by
    refine Follows.agrees_forgotten (operandPair · pos left right) (fun ctx' mode same => ?_)
      inside (recalls.sound inside)
    rw [← codesAt_congr same, ← same]
    exact operandPair_follows (transparent_codesAt mode) (stands_codesAt chains) chain
  obtain ⟨v', ran, same⟩ :=
    agrees.exists_ok (operandPair_eq_ok.mpr ⟨u, valuedLeft, valuedRight⟩)
  obtain ⟨u', ranLeft, ranRight⟩ := operandPair_eq_ok.mp ran
  exact ⟨u', v', ranLeft, ranRight, by rw [State.code, same.output, State.code]⟩

/-- The operands of a comparison can be generated where nothing is remembered. -/
theorem exists_knownOperands (ctx : Context) (inside : s.Inside) {op : RelOp} {nan : Bool}
    (chains : ∀ operand ∈ (Cond.compare op left right nan).operands, operand.isValueChain = true) :
    ∃ types, Prepared s.frame.locals types s.forgotten ∧
      KnownOperand ctx s.frame.locals types (0 :: pos) left ∧
      KnownOperand ctx s.frame.locals types (1 :: pos) right := by
  obtain ⟨types, knows, known⟩ : ∃ types, Knows types s.forgotten ∧
      Known ctx s.frame.locals types pos _ (Cond.compare op left right nan).operandAt? :=
    exists_known ctx pos s.forgotten chains fun _ _ _ => by simp [State.forgotten]
  refine ⟨types, ?_, ?_, ?_⟩
  · exact ⟨⟨⟨rfl, inside.matched, inside.shapesBelow, knows⟩, inside.alive⟩, inside.nested⟩
  · exact known.operand 0 (by simp [Cond.operands]) fun _ => rfl
  · exact known.operand 1 (by simp [Cond.operands]) fun _ => rfl

section

variable {op : RelOp} {nan : Bool} (inside : s.Inside)
variable (chains :
  ∀ operand ∈ (Cond.compare op left right nan).operands, operand.isValueChain = true)
variable (valuedLeft : value (left.code ctx (0 :: pos)) s = .ok (.primitive p) u)
variable (valuedRight : value (right.code ctx (1 :: pos)) u = .ok r v)
variable (numeric : p.isNumeric = true)
variable (checked : conversion ctx r (.primitive p) = .checkedUnboxing) (sense : Bool)

include inside chains valuedLeft valuedRight numeric checked

theorem Cond.compare_refused (recalls : s.Recalls ctx pos (.compare op left right nan))
    (unwrapped : r.unboxed? = none) (target : Label) :
    ∃ t, (Cond.compare op left right nan).branch ctx pos sense target s =
      .error (.noConversion r (.primitive p)) t ∧ t.code = v.code := by
  obtain ⟨types, prepared, knownLeft, knownRight⟩ := exists_knownOperands ctx.anew inside chains
  obtain ⟨u', v', valuedLeft', valuedRight', sameCode⟩ :=
    operands_forgotten inside [] (by simpa using recalls) (by simpa using chains)
      knownRight.chain valuedLeft valuedRight
  obtain ⟨t', refused, written⟩ := compareBranch_anew_refuses prepared knownLeft knownRight
    valuedLeft' valuedRight' numeric checked unwrapped op nan sense target
  obtain ⟨_, t, refused', rfl, same⟩ :=
    (Cond.branch_agrees_forgotten inside recalls chains sense target).exists_error_left refused
  refine ⟨t, refused', ?_⟩
  rw [← sameCode, ← written, State.code, State.code, same.output]

theorem Cond.compare_cast
    (recalls : s.Recalls ctx pos (.compare op left (right ++ [.cast (.primitive p)]) nan))
    {target : Label} (old : target ∈ s.old) (admits : s.Admits target s.frame.stack) :
    ∃ t, (Cond.compare op left (right ++ [.cast (.primitive p)]) nan).branch ctx pos sense target s =
        .ok () t ∧
      t.code = v.code ++ [.type .checkcast (.wrapperOf p), Conversion.unboxInstr p] ++
        numericInstrs p.computational (if sense then op else op.negate)
          (if sense then nan else !nan) target := by
  have chainsCast : ∀ operand ∈ (Cond.compare op left (right ++ [.cast (.primitive p)]) nan).operands,
      operand.isValueChain = true := by
    obtain ⟨chainsLeft, chainsRight⟩ := List.forall_mem_append.mp chains
    exact List.forall_mem_append.mpr ⟨chainsLeft, chains_of_cast chainsRight⟩
  obtain ⟨types, prepared, knownLeft, knownRight⟩ := exists_knownOperands ctx.anew inside chains
  obtain ⟨u', v', valuedLeft', valuedRight', sameCode⟩ :=
    operands_forgotten inside _ recalls chainsCast knownRight.chain valuedLeft valuedRight
  obtain ⟨_, t', succeeded, written⟩ := compareBranch_anew_casts prepared knownLeft knownRight
    valuedLeft' valuedRight' numeric checked op nan sense old admits
  obtain ⟨t, succeeded', same⟩ :=
    (Cond.branch_agrees_forgotten inside recalls chainsCast sense target).exists_ok_left succeeded
  refine ⟨t, succeeded', ?_⟩
  rw [← sameCode, ← written, State.code, State.code, same.output]

end

end Memory

/-- A number is not compared with a reference that may hold its wrapper: the
conversion that this would take is not implicit, so that the comparison is
refused, for every operator and sense, with nothing written but the operands.
If the operands are value chains, of which nothing else is remembered than what
dry runs give, a cast of the right one makes the comparison succeed.  It then
writes the operands, a check for the wrapper, the unboxing call and a branch on
numbers, which is taken exactly if the comparison has the wanted sense. -/
theorem Cond.compare_checkedUnboxing {ctx : Context} {p : Primitive} {r : JType}
    (numeric : p.isNumeric = true) (unwrapped : r.unboxed? = none)
    (checked : conversion ctx r (.primitive p) = .checkedUnboxing)
    (op : RelOp) (nan sense : Bool) (target : Label) (pos : Position) (left right : Fragment) :
    (∀ s s₁ s₂ u v,
      probe ctx (left.operand ctx (0 :: pos)) s = .ok (.primitive p) s₁ →
      probe ctx (right.operand ctx (1 :: pos)) s₁ = .ok r s₂ →
      value (left.code ctx (0 :: pos)) s₂ = .ok (.primitive p) u →
      value (right.code ctx (1 :: pos)) u = .ok r v →
        (Cond.compare op left right nan).branch ctx pos sense target s =
          .error (.noConversion r (.primitive p)) v) ∧
    (∀ s u v,
      (∀ operand ∈ (Cond.compare op left right nan).operands, operand.isValueChain = true) →
      s.Inside → value (left.code ctx (0 :: pos)) s = .ok (.primitive p) u →
      value (right.code ctx (1 :: pos)) u = .ok r v →
        (s.Recalls ctx pos (.compare op left right nan) →
          ∃ t, (Cond.compare op left right nan).branch ctx pos sense target s =
            .error (.noConversion r (.primitive p)) t ∧ t.code = v.code) ∧
        (s.Recalls ctx pos (.compare op left (right ++ [.cast (.primitive p)]) nan) →
          target ∈ s.old → s.Admits target s.frame.stack →
          ∃ t, (Cond.compare op left (right ++ [.cast (.primitive p)]) nan).branch ctx pos sense
              target s = .ok () t ∧
            t.code = v.code ++ [.type .checkcast (.wrapperOf p), Conversion.unboxInstr p] ++
              numericInstrs p.computational (if sense then op else op.negate)
                (if sense then nan else !nan) target)) ∧
    ∀ (setting : Setting) (x y : Value) (verdict : Bool),
      x.category = p.category → y.category = p.category →
      (p = .float ∨ p = .double → op.Consistent nan) → op.compare? nan x y = some verdict →
        Runs setting
          (numericInstrs p.computational (if sense then op else op.negate)
            (if sense then nan else !nan) target)
          [y, x] [] (if verdict = sense then some target else none) [] := by
  refine ⟨?_, ?_, ?_⟩
  · intro s s₁ s₂ u v probedLeft probedRight valuedLeft valuedRight
    exact compareBranch_refuses numeric unwrapped checked probedLeft probedRight valuedLeft
      valuedRight op nan sense target
  · intro s u v chains inside valuedLeft valuedRight
    exact ⟨fun recalls => Cond.compare_refused inside chains valuedLeft valuedRight numeric checked
      sense recalls unwrapped target, fun recalls old admits => Cond.compare_cast inside chains
        valuedLeft valuedRight numeric checked sense recalls old admits⟩
  · intro setting x y verdict isLeft isRight consistent compared
    rw [← Primitive.category_computational] at isLeft isRight
    have taken := numericInstrs_runs setting p.isPromoted_computational isLeft isRight
      (fun floating => (consistent (p.floating_of_computational floating)).of_sense sense)
      (RelOp.compare?_of_sense sense compared) target
    simpa using taken

namespace Sample

open Fragment

/-- The reference type of the boxed numbers. -/
def number : JType := .named "java.lang.Number"

/-- A state inside an operation, with a number and a reference among the
variables and one label; the number was probed before. -/
def boundState : State where
  frame := { locals := ⟨#[some .short, some number], #[some "total", some "bound"]⟩ }
  output := { nextLabel := 1 }
  probed := .insert ∅ [0] .short
  depth := 1

/-- What is remembered for the left operand is right. -/
theorem boundState_recalls (right : Fragment) :
    boundState.Recalls minimumContext []
      (.compare .lt (loadNamed "total") right false) := by
  intro path operand ty isOperand known
  obtain ⟨isPath, rfl⟩ : [0] = path.reverse ∧ JType.short = ty := by
    simpa [boundState, Std.TreeMap.getElem?_insert] using known
  obtain rfl : path = [0] := List.reverse_eq_iff.mp isPath.symm
  obtain rfl : loadNamed "total" = operand := by simpa [Cond.operandAt?] using isOperand
  have chains : ∀ operand ∈ loadNamed "total" :: operandsIn (loadNamed "total"),
      operand.isValueChain = true := by decide
  have dryRun : value (codeFrom minimumContext.anew [0] 0 (loadNamed "total")) boundState.dryRun =
      .ok .short (stateAfter (value (codeFrom minimumContext.anew [0] 0 (loadNamed "total")))
        boundState.dryRun) := rfl
  exact (codeFrom_lifts minimumContext [0] _ chains).answers rfl dryRun

theorem total_compare_checkedUnboxing :
    conversion minimumContext number .short = .checkedUnboxing ∧
      (∃ t, (Cond.compare .lt (loadNamed "total") (loadNamed "bound") false).branch minimumContext []
        true ⟨0⟩ boundState = .error (.noConversion number .short) t) ∧
      ∃ t, (Cond.compare .lt (loadNamed "total") (loadNamed "bound" ++ [.cast .short]) false).branch
          minimumContext [] true ⟨0⟩ boundState = .ok () t ∧
        t.code = [.var (.loadOf .short) 0, .var (.loadOf number) 1,
          .type .checkcast (.wrapperOf .short), Conversion.unboxInstr .short,
          .jump RelOp.lt.intBranch ⟨0⟩] := by
  have checked : conversion minimumContext number .short = .checkedUnboxing := by
    decide +kernel
  have inside : boundState.Inside :=
    ⟨rfl, by decide, rfl, by simp [State.ShapesBelow, State.shape?, boundState]⟩
  let u := stateAfter (value (Fragment.code minimumContext [0] (loadNamed "total"))) boundState
  have valuedLeft : value (Fragment.code minimumContext [0] (loadNamed "total")) boundState =
      .ok .short u := rfl
  let v := stateAfter (value (Fragment.code minimumContext [1] (loadNamed "bound"))) u
  have valuedRight : value (Fragment.code minimumContext [1] (loadNamed "bound")) u =
      .ok number v := rfl
  obtain ⟨refuses, casts⟩ := (Cond.compare_checkedUnboxing rfl rfl checked .lt false true ⟨0⟩
    [] _ _).2.1 boundState u v (by decide +kernel) inside valuedLeft valuedRight
  obtain ⟨t, refused, -⟩ := refuses (boundState_recalls _)
  obtain ⟨t', succeeded, written⟩ := casts (boundState_recalls _) (by simp [boundState])
    (by simp [State.Admits, State.shape?, boundState])
  refine ⟨checked, ⟨t, refused⟩, t', succeeded, written.trans ?_⟩
  decide +kernel

/-- `n == o`, for an `int` and an `Object`. -/
def equalsObject : MethodSpec where
  name := "f"
  access := .publicStatic
  params := [("n", .int), ("o", .object)]
  result := .boolean
  body := [.condValue (.relation .eq (loadNamed "n") (loadNamed "o")), .returnValue]

/-- The comparison is not assembled, although `Object` is above the wrapper. -/
theorem equalsObject_refused :
    conversion minimumContext .object .int = .checkedUnboxing ∧
      equalsObject.assemble (classContext "Demo" {}) = .error (.noConversion .object .int) := by
  decide +kernel

end Sample

end JvmAssembler
