import Mathlib
import JvmAssembler.Proofs.ControlFlow
import JvmAssembler.Proofs.FormedCode
import JvmAssembler.Proofs.PoolLookup

/-!
# Encoding never meets a broken invariant

Encoding checks what it is given: the ranges of immediate operands, the opcodes
of loads and stores, that types have names, and that branches have labels.  A
failed check is an internal error, unlike code or a pool that is too large.

The only types without a name are that of `null` and arrays of it.  Main
statement: where neither the members nor the types of a method bring one in, its
code is encoded without an internal error.
-/

namespace JvmAssembler

/-! ## Types with names -/

namespace JType

/-- The type is that of `null`, or an array of it. -/
def containsNull : JType → Bool
  | .null => true
  | .array elem => elem.containsNull
  | _ => false

/-- The type is an array of the type of `null`. -/
def hasNullArray : JType → Bool
  | .array elem => elem.containsNull
  | _ => false

theorem containsNull_of_hasNullArray {ty : JType} (notNull : ty ≠ .null)
    (noArray : ty.hasNullArray = false) : ty.containsNull = false := by
  cases ty with
  | array elem => exact noArray
  | null => contradiction
  | _ => rfl

theorem hasNullArray_of_containsNull {ty : JType} (noNull : ty.containsNull = false) :
    ty.hasNullArray = false := by
  cases ty with
  | array elem => exact noNull
  | _ => rfl

end JType

/-- The class has a name that types can be written with. -/
theorem ClassHandle.exists_binaryName {this : ClassHandle} (named : this.isNamed = true) :
    ∃ name, this.binaryName = .ok name := by
  obtain ⟨name, isName⟩ := Option.isSome_iff_exists.mp named
  exact ⟨name, by simp [binaryName, isName]⟩

namespace JType

variable {this : ClassHandle} {ty : JType}

theorem exists_descriptor (named : this.isNamed = true) (noNull : ty.containsNull = false) :
    ∃ text, ty.descriptor this = .ok text := by
  induction ty with
  | primitive p => exact ⟨_, rfl⟩
  | cls name => exact ⟨_, rfl⟩
  | void => exact ⟨_, rfl⟩
  | null => contradiction
  | self =>
      obtain ⟨name, isName⟩ := this.exists_binaryName named
      exact ⟨"L" ++ name ++ ";", by simp [descriptor, isName, bind, Except.bind, pure, Except.pure]⟩
  | array elem ih =>
      obtain ⟨inner, isInner⟩ := ih noNull
      exact ⟨"[" ++ inner, by simp [descriptor, isInner, bind, Except.bind, pure, Except.pure]⟩

theorem exists_internalName (named : this.isNamed = true) (reference : ty.isReference = true)
    (noNull : ty.containsNull = false) : ∃ name, ty.internalName this = .ok name := by
  cases ty with
  | cls name => exact ⟨name, rfl⟩
  | self => exact this.exists_binaryName named
  | array elem => exact exists_descriptor named noNull
  | null => contradiction
  | primitive p => contradiction
  | void => contradiction

end JType

/-! ## Operations on pools -/

namespace ConstantPool

/-- Failing runs fail because of the input. -/
def FailsByInput {α : Type} (x : PoolOp α) : Prop :=
  ∀ ⦃pool e after⦄, x pool = .error e after → e.isInternal = false

namespace FailsByInput

variable {α β : Type}

theorem pure (a : α) : FailsByInput (pure a : PoolOp α) := by
  rintro pool e after ⟨⟩

theorem throw {e : Error} (byInput : e.isInternal = false) :
    FailsByInput (throw e : PoolOp α) := by
  rintro pool _ after ⟨⟩
  exact byInput

/-- What follows may use what a successful run returns. -/
theorem seq {x : PoolOp α} {f : α → PoolOp β} (first : FailsByInput x)
    (second : ∀ pool a middle, x pool = .ok a middle → FailsByInput (f a)) :
    FailsByInput (x >>= f) := by
  intro pool e after run
  rcases bind_eq_error run with failed | ⟨a, middle, ran, failed⟩
  · exact first failed
  · exact second pool a middle ran failed

theorem bind {x : PoolOp α} {f : α → PoolOp β} (first : FailsByInput x)
    (second : ∀ a, FailsByInput (f a)) : FailsByInput (x >>= f) :=
  first.seq fun _ a _ _ => second a

theorem lift {result : Except Error α} (byInput : ∀ e, result = .error e → e.isInternal = false) :
    FailsByInput (lift result) := by
  intro pool e after run
  cases result with
  | ok a => contradiction
  | error e' =>
      cases run
      exact byInput _ rfl

theorem lift_ok {result : Except Error α} (succeeds : ∃ a, result = .ok a) :
    FailsByInput (ConstantPool.lift result) := by
  obtain ⟨a, rfl⟩ := succeeds
  exact lift (by simp)

theorem add (constant : Constant) : FailsByInput (add constant) := by
  intro pool e after run
  simp only [ConstantPool.add] at run
  split at run
  · contradiction
  · split at run
    · cases run
      rfl
    · contradiction

theorem addType {this : ClassHandle} {ty : JType} (named : this.isNamed = true)
    (reference : ty.isReference = true) (noNull : ty.containsNull = false) :
    FailsByInput (addType this ty) :=
  (lift_ok (ty.exists_internalName named reference noNull)).bind fun _ =>
    (add _).bind fun _ => add _

theorem addLiteral (literal : Literal) : FailsByInput (addLiteral literal) := by
  cases literal with
  | string text => exact (add _).bind fun _ => add _
  | _ => exact add _

end FailsByInput

end ConstantPool

namespace Signature

variable {this : ClassHandle}

theorem byInput_of_paramDescriptors {params : List JType} {e : Error}
    (named : this.isNamed = true) (noNull : ∀ ty ∈ params, ty.containsNull = false)
    (failed : paramDescriptors this params = .error e) : e.isInternal = false := by
  induction params with
  | nil => contradiction
  | cons ty rest ih =>
      rw [List.forall_mem_cons] at noNull
      obtain ⟨text, isText⟩ := ty.exists_descriptor named noNull.1
      rw [paramDescriptors] at failed
      split at failed
      · cases failed
        rfl
      · cases others : paramDescriptors this rest with
        | error e' =>
            simp only [isText, others, bind, Except.bind] at failed
            cases failed
            exact ih noNull.2 others
        | ok texts => simp [isText, others, bind, Except.bind, pure, Except.pure] at failed

theorem byInput_of_descriptor {sig : Signature} {e : Error} (named : this.isNamed = true)
    (params : ∀ ty ∈ sig.params, ty.containsNull = false)
    (result : sig.result.containsNull = false) (failed : sig.descriptor this = .error e) :
    e.isInternal = false := by
  obtain ⟨text, isText⟩ := sig.result.exists_descriptor named result
  cases paramTexts : paramDescriptors this sig.params with
  | error e' =>
      simp only [descriptor, paramTexts, bind, Except.bind] at failed
      cases failed
      exact byInput_of_paramDescriptors named params paramTexts
  | ok texts =>
      simp [descriptor, paramTexts, isText, bind, Except.bind, pure, Except.pure] at failed

end Signature

/-- The reference can be named: its owner is a class, and its types have
descriptors. -/
structure MemberRef.Nameable (ref : MemberRef) : Prop where
  owner : Gen.isInstantiable ref.owner = true
  params : ∀ ty ∈ ref.signature.params, ty.containsNull = false
  result : ref.signature.result.containsNull = false

theorem ConstantPool.FailsByInput.addMemberRef {this : ClassHandle} {ref : MemberRef}
    (named : this.isNamed = true) (nameable : ref.Nameable) :
    FailsByInput (addMemberRef this ref) := by
  have owner : FailsByInput (ConstantPool.addType this ref.owner) := by
    have isClass := nameable.owner
    refine addType named ?_ ?_ <;> cases isOwner : ref.owner <;>
      simp_all [Gen.isInstantiable, JType.isReference, JType.containsNull]
  refine owner.bind fun _ => (lift fun e failed => ?_).bind fun _ =>
    ((add _).bind fun _ => (add _).bind fun _ => add _).bind fun _ => add _
  split at failed
  · obtain ⟨text, isText⟩ := JType.exists_descriptor named nameable.result
    rw [isText] at failed
    contradiction
  · exact Signature.byInput_of_descriptor named nameable.params nameable.result failed

/-! ## Instructions -/

namespace Bytecode

open ConstantPool (FailsByInput)

variable {this : ClassHandle}

theorem intBytes_newarray (p : Primitive) :
    intBytes .newarray p.arrayCode = .ok [Opcode.newarray, p.arrayCode.toUInt32.toUInt8] := by
  cases p <;> rfl

theorem exists_varBytes_loadOf {ty : JType} (slot : Slot) (value : ty.isVoid = false) :
    ∃ bytes, varBytes (.loadOf ty) slot = .ok bytes := by
  have compact : (compactBase? (.loadOf ty)).isSome = true := by
    cases ty with
    | primitive p => cases p <;> decide
    | void => contradiction
    | _ => rfl
  obtain ⟨base, isBase⟩ := Option.isSome_iff_exists.mp compact
  exact ⟨_, by rw [varBytes, isBase]⟩

theorem exists_varBytes_storeOf {ty : JType} (slot : Slot) (value : ty.isVoid = false) :
    ∃ bytes, varBytes (.storeOf ty) slot = .ok bytes := by
  have compact : (compactBase? (.storeOf ty)).isSome = true := by
    cases ty with
    | primitive p => cases p <;> decide
    | void => contradiction
    | _ => rfl
  obtain ⟨base, isBase⟩ := Option.isSome_iff_exists.mp compact
  exact ⟨_, by rw [varBytes, isBase]⟩

theorem piece_ldc_failsByInput (literal : Literal) : FailsByInput (piece this (.ldc literal)) :=
  (FailsByInput.addLiteral literal).bind fun _ => .pure _

/-- A constant that is loaded by an immediate operand is in its range. -/
theorem piece_constant_failsByInput (literal : Literal) :
    FailsByInput (piece this (Gen.constantInstr literal)) := by
  cases literal with
  | int value =>
      simp only [Gen.constantInstr]
      split
      · exact .pure _
      · split
        · rename_i small
          exact (FailsByInput.lift_ok ⟨_, by rw [intBytes, if_pos rfl, if_pos small]⟩).bind
            fun _ => .pure _
        · split
          · rename_i small
            have notByte : Opcode.sipush ≠ .bipush := by decide
            exact (FailsByInput.lift_ok
              ⟨_, by rw [intBytes, if_neg notByte, if_pos rfl, if_pos small]⟩).bind fun _ => .pure _
          · exact piece_ldc_failsByInput _
  | long value =>
      simp only [Gen.constantInstr]
      split
      · exact .pure _
      · split
        · exact .pure _
        · exact piece_ldc_failsByInput _
  | float value | double value =>
      simp only [Gen.constantInstr]
      split
      · exact .pure _
      · exact piece_ldc_failsByInput _
  | string text => exact piece_ldc_failsByInput _

theorem piece_member_failsByInput {ref : MemberRef} (named : this.isNamed = true)
    (nameable : ref.Nameable) (code : Opcode) : FailsByInput (piece this (.member code ref)) := by
  refine (FailsByInput.addMemberRef named nameable).bind fun _ =>
    (FailsByInput.lift fun e failed => ?_).bind fun _ => .pure _
  unfold countBytes at failed
  dsimp only at failed
  split at failed
  · split at failed
    · contradiction
    · cases failed
      rfl
  · contradiction

end Bytecode

/-- Members owned by classes, whose signatures do not contain the type of
`null`. -/
def MemberTable.Nameable (table : MemberTable) : Prop :=
  ∀ m ∈ table.members, m.ref.Nameable

/-- The vocabulary of types that are no arrays of the type of `null`. -/
def Vocabulary.nameable {ctx : Context} (members : ctx.table.Nameable)
    (result : ctx.result.hasNullArray = false) : Vocabulary ctx where
  proper ty := ty.hasNullArray = false
  called _ := True
  simple := by
    intro ty simple
    cases ty <;> simp_all [JType.element?, JType.hasNullArray]
  array notNull proper := JType.containsNull_of_hasNullArray notNull proper
  element := JType.hasNullArray_of_containsNull
  param mem ty isParam := JType.hasNullArray_of_containsNull ((members _ mem).params ty isParam)
  valueType mem := JType.hasNullArray_of_containsNull (members _ mem).result
  result := result

namespace Bytecode

open ConstantPool (FailsByInput)

variable {this : ClassHandle} {ctx : Context} {members : ctx.table.Nameable}
  {result : ctx.result.hasNullArray = false}

theorem piece_failsByInput {instr : Instr} (named : this.isNamed = true)
    (writes : (Vocabulary.nameable members result).Writes instr) :
    FailsByInput (piece this instr) := by
  cases writes with
  | op code => exact .pure _
  | constant literal => exact piece_constant_failsByInput literal
  | newarray p => exact (FailsByInput.lift_ok ⟨_, intBytes_newarray p⟩).bind fun _ => .pure _
  | type code reference notNull proper =>
      exact (FailsByInput.addType named reference
        (JType.containsNull_of_hasNullArray notNull proper)).bind fun _ => .pure _
  | load slot value =>
      exact (FailsByInput.lift_ok (exists_varBytes_loadOf slot value)).bind fun _ => .pure _
  | store slot value =>
      exact (FailsByInput.lift_ok (exists_varBytes_storeOf slot value)).bind fun _ => .pure _
  | jump code target => exact .pure _
  | label position => exact .pure _
  | box p =>
      refine piece_member_failsByInput named ⟨rfl, fun ty mem => ?_, rfl⟩ _
      obtain rfl := List.mem_singleton.mp mem
      rfl
  | unbox p => exact piece_member_failsByInput named ⟨rfl, fun ty mem => (by cases mem), rfl⟩ _
  | member names => exact piece_member_failsByInput named (members _ names.found.mem) _

/-- A piece is a branch or label only for the jump or label of its instruction. -/
structure Mirrors (instr : Instr) (p : Piece) : Prop where
  branch : ∀ code target, p = .branch code target → instr = .jump code target
  label : ∀ position, instr = .label position → p = .label position

variable {pool after : ConstantPool} {instrs : List Instr} {ps : List Piece}

theorem mirrors_of_piece {instr : Instr} {p : Piece}
    (encoded : piece this instr pool = .ok p after) : Mirrors instr p := by
  cases instr with
  | op code =>
      cases encoded
      exact ⟨by simp, by simp⟩
  | jump code target =>
      cases encoded
      exact ⟨by simp, by simp⟩
  | label position =>
      cases encoded
      exact ⟨by simp, by simp⟩
  | int code operand | type code ty | ldc literal | var code slot =>
      obtain ⟨_, _, -, rest⟩ := bind_eq_ok.mp encoded
      cases rest
      exact ⟨by simp, by simp⟩
  | member code ref =>
      obtain ⟨_, _, -, rest⟩ := bind_eq_ok.mp encoded
      obtain ⟨_, _, -, rest⟩ := bind_eq_ok.mp rest
      cases rest
      exact ⟨by simp, by simp⟩

theorem mirrors_of_pieces (encoded : pieces this instrs pool = .ok ps after) :
    List.Forall₂ Mirrors instrs ps := by
  induction instrs generalizing pool ps with
  | nil =>
      cases encoded
      exact .nil
  | cons instr rest ih =>
      rw [pieces, List.mapM_cons] at encoded
      obtain ⟨p, middle, first, encoded⟩ := bind_eq_ok.mp encoded
      obtain ⟨others, _, remaining, built⟩ := bind_eq_ok.mp encoded
      cases built
      exact .cons (mirrors_of_piece first) (ih remaining)

theorem jump_mem_of_branch_mem {code : Opcode} {target : Label}
    (mirrors : List.Forall₂ Mirrors instrs ps) (mem : .branch code target ∈ ps) :
    .jump code target ∈ instrs := by
  induction mirrors with
  | nil => contradiction
  | cons mirror _ ih =>
      rcases List.mem_cons.mp mem with isFirst | later
      · exact List.mem_cons.mpr (.inl (mirror.branch code target isFirst.symm).symm)
      · exact List.mem_cons_of_mem _ (ih later)

theorem label_mem_of_label_mem {position : Label} (mirrors : List.Forall₂ Mirrors instrs ps)
    (mem : .label position ∈ instrs) : .label position ∈ ps := by
  induction mirrors with
  | nil => contradiction
  | cons mirror _ ih =>
      rcases List.mem_cons.mp mem with isFirst | later
      · exact List.mem_cons.mpr (.inl (mirror.label position isFirst.symm).symm)
      · exact List.mem_cons_of_mem _ (ih later)

theorem pieces_failsByInput (each : ∀ instr ∈ instrs, FailsByInput (piece this instr)) :
    FailsByInput (pieces this instrs) := by
  induction instrs with
  | nil => exact .pure []
  | cons instr rest ih =>
      rw [List.forall_mem_cons] at each
      rw [pieces, List.mapM_cons]
      exact each.1.bind fun _ => (ih each.2).bind fun _ => .pure _

/-! ## Branches -/

/-- Every label of the pieces gets an address, and no address is lost. -/
theorem lookup_addresses {label : Label} (start : Nat) (known : List (Label × Nat))
    (placed : .label label ∈ ps ∨ (known.lookup label).isSome = true) :
    ((addresses start known ps).lookup label).isSome = true := by
  induction ps generalizing start known with
  | nil => simpa [addresses] using placed
  | cons p rest ih =>
      cases p with
      | label position =>
          refine ih start _ ?_
          by_cases same : label = position
          · exact .inr (by simp [same])
          · have other : (label == position) = false := by simpa using same
            simpa [List.lookup_cons, same, other] using placed
      | bytes content | branch code target => exact ih _ known (by simpa using placed)

theorem resolve_byInput {known : List (Label × Nat)} {start : Nat} {e : Error}
    (placed : ∀ code target, .branch code target ∈ ps → (known.lookup target).isSome = true)
    (failed : resolve known start ps = .error e) : e.isInternal = false := by
  induction ps generalizing start with
  | nil => contradiction
  | cons p rest ih =>
      have later : ∀ code target, .branch code target ∈ rest →
          (known.lookup target).isSome = true := fun code target mem =>
        placed code target (List.mem_cons_of_mem _ mem)
      cases p with
      | label position => exact ih later failed
      | bytes content =>
          rw [resolve] at failed
          cases others : resolve known (start + content.length) rest with
          | ok bytes => simp [others, bind, Except.bind, pure, Except.pure] at failed
          | error e' =>
              simp only [others, bind, Except.bind] at failed
              cases failed
              exact ih later others
      | branch code target =>
          obtain ⟨address, isAddress⟩ :=
            Option.isSome_iff_exists.mp (placed code target List.mem_cons_self)
          rw [resolve] at failed
          cases offset : branchOffset known start target with
          | error e' =>
              simp only [offset, bind, Except.bind] at failed
              cases failed
              simp only [branchOffset, isAddress] at offset
              split at offset
              · contradiction
              · cases offset
                rfl
          | ok value =>
              cases others : resolve known (start + 3) rest with
              | ok bytes => simp [offset, others, bind, Except.bind, pure, Except.pure] at failed
              | error e' =>
                  simp only [offset, others, bind, Except.bind] at failed
                  cases failed
                  exact ih later others

/-- Code in which every jump has its label is encoded without an internal error
if each of its instructions is. -/
theorem encode_failsByInput {limit : Nat}
    (each : ∀ instr ∈ instrs, FailsByInput (piece this instr))
    (targets : ∀ code target, .jump code target ∈ instrs → .label target ∈ instrs) :
    FailsByInput (encode this limit instrs) := by
  refine (pieces_failsByInput each).seq fun pool ps middle encoded => ?_
  have mirrors := mirrors_of_pieces encoded
  have resolves : FailsByInput (ConstantPool.lift (resolve (addresses 0 [] ps) 0 ps)) := by
    refine .lift fun e failed => resolve_byInput (fun code target mem => ?_) failed
    have isPlaced := targets code target (jump_mem_of_branch_mem mirrors mem)
    exact lookup_addresses 0 [] (.inl (label_mem_of_label_mem mirrors isPlaced))
  split
  · exact (FailsByInput.throw rfl).bind fun _ => resolves
  · exact resolves

end Bytecode

/-- Every jump of an assembled method has its label. -/
theorem MethodSpec.jumps_placed_of_assemble {cls : ClassContext} {spec : MethodSpec}
    {method : AssembledMethod} (assembled : spec.assemble cls = .ok method) :
    ∀ code target, .jump code target ∈ method.instrs → .label target ∈ method.instrs := by
  obtain ⟨limits, s, ran, rfl⟩ := exists_method_of_assemble assembled
  obtain ⟨closed, output, ofClosed, dead⟩ := Gen.method_closed ran
  have placed := (closedFlow_of_closed ofClosed dead).targets_placed
  rwa [State.code, ← output] at placed

/-- Encoding an assembled method never ends in an internal error, if the members
are owned by classes, their signatures do not contain the type of `null`, the
types of the method contain no array of it, and the class has a name. -/
theorem MethodSpec.encode_byInput_of_assemble (cls : ClassContext) (spec : MethodSpec)
    (method : AssembledMethod) (this : ClassHandle) (pool : ConstantPool)
    (members : cls.table.Nameable)
    (params : ∀ param ∈ spec.params, param.2.hasNullArray = false)
    (result : spec.result.hasNullArray = false)
    (types : ∀ ty, .type ty ∈ mentionsIn spec.body → ty.hasNullArray = false)
    (named : this.isNamed = true) (assembled : spec.assemble cls = .ok method) :
    (∃ bytes grown, method.encode this pool = .ok bytes grown) ∨
      ∃ e after, method.encode this pool = .error e after ∧ e.isInternal = false := by
  let v : Vocabulary (spec.context cls) := .nameable members result
  have writes : ∀ instr ∈ method.instrs, v.Writes instr :=
    writes_of_assemble v ⟨types, fun _ _ => trivial⟩ params assembled
  have fails : ConstantPool.FailsByInput (method.encode this) :=
    Bytecode.encode_failsByInput
      (fun instr mem => Bytecode.piece_failsByInput named (writes instr mem))
      (jumps_placed_of_assemble assembled)
  cases ran : method.encode this pool with
  | ok bytes grown => exact .inl ⟨bytes, grown, rfl⟩
  | error e after => exact .inr ⟨e, after, rfl, fails ran⟩

/-- The branching sample is encoded without an internal error. -/
theorem Sample.branchNames_encode_byInput :
    ∃ method, branchNames.assemble (classContext "Demo" {}) = .ok method ∧
      (classContext "Demo" {}).table.Nameable ∧
      (classContext "Demo" {}).this.isNamed = true ∧
      ((∃ bytes grown, method.encode (classContext "Demo" {}).this .new = .ok bytes grown) ∨
        ∃ e after, method.encode (classContext "Demo" {}).this .new = .error e after ∧
          e.isInternal = false) := by
  have nameable : (classContext "Demo" {}).table.Nameable := by
    have all : ∀ m ∈ (classContext "Demo" {}).table.members,
        Gen.isInstantiable m.owner = true ∧
          (∀ ty ∈ m.signature.params, ty.containsNull = false) ∧
          m.signature.result.containsNull = false := by
      decide +kernel
    intro m mem
    obtain ⟨owner, params, result⟩ := all m mem
    exact ⟨owner, params, result⟩
  have mentioned : ∀ mention ∈ mentionsIn branchNames.body,
      mention = .type .self ∨ mention = .call "equals" := by
    decide +kernel
  have named : (classContext "Demo" {}).this.isNamed = true := by decide +kernel
  have succeeds : (branchNames.assemble (classContext "Demo" {})).isOk = true := by decide +kernel
  cases assembled : branchNames.assemble (classContext "Demo" {}) with
  | error e => simp [assembled, Except.isOk, Except.toBool] at succeeds
  | ok method =>
      refine ⟨method, rfl, nameable, named, ?_⟩
      refine MethodSpec.encode_byInput_of_assemble _ branchNames method _ _ nameable ?_ rfl ?_ named
        assembled
      · decide
      · intro ty mem
        rcases mentioned _ mem with isSelf | isCall
        · obtain rfl := Mention.type.inj isSelf
          rfl
        · cases isCall

end JvmAssembler
