import Mathlib
import JvmAssembler.Proofs.Vocabulary

/-!
# Generated code keeps to its vocabulary

One lemma for each action of the generator says that it keeps states formed: the
types of operands, variables, shapes and probed fragments stay in the vocabulary,
and so do the instructions.  By recursion over bodies this holds of every
method whose types and calls are in the vocabulary.
-/

namespace JvmAssembler

/-! ## Actions -/

open JvmAssembler.Frame (Typed)

namespace Gen

variable {α : Type} {ctx : Context} {v : Vocabulary ctx} {post : α → Prop}

theorem onFrame_formed {op : FrameOp α} (typed : Preserves (Typed v.Value) op post) :
    Preserves v.Formed (onFrame op) post := by
  intro s a t run formed
  obtain ⟨frame, ran, rfl⟩ := onFrame_eq_ok.mp run
  obtain ⟨typed, holds⟩ := typed ran formed.frame
  exact ⟨⟨typed, formed.probed, formed.instrs⟩, holds⟩

theorem push_formed {ty : JType} (proper : v.proper ty) : Preserves v.Formed (push ty) :=
  onFrame_formed (Typed.push fun notVoid => ⟨notVoid, proper⟩)

theorem pop_formed : Preserves v.Formed pop v.Value :=
  onFrame_formed Typed.pop

theorem popN_formed (n : Nat) : Preserves v.Formed (popN n) :=
  onFrame_formed (Typed.popN n)

theorem peek_formed : Preserves v.Formed peek v.Value :=
  onFrame_formed Typed.peek

theorem write_formed {instr : Instr} (writes : v.Writes instr) :
    Preserves v.Formed (write ctx instr) := by
  intro s _ t run formed
  have emits := write_emits run
  cases run
  refine ⟨⟨formed.frame, formed.probed, ?_⟩, trivial⟩
  rw [State.code, emits.instrs_eq, List.forall_mem_append, List.forall_mem_singleton]
  exact ⟨formed.instrs, writes⟩

theorem emit_formed {instr : Instr} (writes : v.Writes instr) :
    Preserves v.Formed (emit ctx instr) := by
  refine (write_formed writes).bind fun _ _ => ?_
  cases instr with
  | op code => exact .ite (fun _ => onFrame_formed Typed.markDead) fun _ => .pure trivial
  | _ => exact .pure trivial

theorem emitOp_formed (code : Opcode) : Preserves v.Formed (emitOp ctx code) :=
  emit_formed (.op code)

theorem emitAll_formed {code : List Instr} (writes : ∀ instr ∈ code, v.Writes instr) :
    Preserves v.Formed (emitAll ctx code) := by
  induction code with
  | nil => exact .pure trivial
  | cons instr rest ih =>
      rw [List.forall_mem_cons] at writes
      exact (emit_formed writes.1).bind fun _ _ => ih writes.2

theorem newLabel_formed : Preserves v.Formed newLabel := by
  intro s _ t run formed
  obtain ⟨-, rfl⟩ := newLabel_eq_ok.mp run
  exact ⟨⟨formed.frame, formed.probed, formed.instrs⟩, trivial⟩

theorem jump_formed (code : Opcode) (target : Label) :
    Preserves v.Formed (jump ctx code target) :=
  (onFrame_formed (Typed.jumpTo target)).bind fun _ _ =>
    (write_formed (.jump code target)).bind fun _ _ =>
      .ite (fun _ => onFrame_formed Typed.markDead) fun _ => .pure trivial

theorem place_formed (label : Label) : Preserves v.Formed (place ctx label) :=
  (onFrame_formed (Typed.place label)).bind fun _ _ => write_formed (.label label)

theorem whenAlive_formed {x : Gen Unit} (formed : Preserves v.Formed x) :
    Preserves v.Formed (whenAlive x) := by
  intro s _ t run ofStart
  rcases whenAlive_eq_ok.mp run with ⟨-, ran⟩ | ⟨-, rfl⟩
  · exact formed ran ofStart
  · exact ⟨ofStart, trivial⟩

theorem value_formed {x : Gen Unit} (formed : Preserves v.Formed x) :
    Preserves v.Formed (value x) v.Value := by
  intro s ty t run ofStart
  obtain ⟨ran, rest, stack, -⟩ := value_eq_ok.mp run
  have ofEnd := (formed ran ofStart).1
  exact ⟨ofEnd, ofEnd.frame.stack ty (by simp [stack])⟩

theorem inScope_formed {x : Gen Unit} (formed : Preserves v.Formed x) :
    Preserves v.Formed (inScope x) :=
  (onFrame_formed Typed.beginScope).bind fun _ _ =>
    formed.bind fun _ _ => onFrame_formed Typed.endScope

theorem operation_formed {x : Gen Unit} (name : String) (formed : Preserves v.Formed x) :
    Preserves v.Formed (operation name x) := by
  intro s _ t run ofStart
  obtain ⟨-, u, ran, rfl⟩ := operation_eq_ok.mp run
  have ofEnd := (formed ran ⟨ofStart.frame, ofStart.probed, ofStart.instrs⟩).1
  refine ⟨⟨ofEnd.frame, fun pos ty found => ?_, ofEnd.instrs⟩, trivial⟩
  simp only [State.leave] at found
  split at found
  · simp at found
  · exact ofEnd.probed pos ty found

/-- A dry run starts without instructions and shapes, and its memory is kept. -/
theorem probe_formed {operand : Operand} (formed : Preserves v.Formed operand.code) :
    Preserves v.Formed (probe ctx operand) v.Value := by
  intro s ty t run ofStart
  obtain ⟨frame, output, -, answer⟩ := probe_ok run
  have ofProbe (probed : ∀ (pos : Position) ty, t.probed[pos]? = some ty → v.Value ty) :
      v.Formed t :=
    ⟨frame ▸ ofStart.frame, probed, by simpa [State.code, output] using ofStart.instrs⟩
  rcases answer with ⟨known, same⟩ | ⟨dry, ran, memory⟩
  · exact ⟨ofProbe (same ▸ ofStart.probed), ofStart.probed _ _ known⟩
  · have ofDry : v.Formed s.dryRun :=
      ⟨ofStart.frame.fork, ofStart.probed, by simp [State.code, State.dryRun, Output.discarded]⟩
    obtain ⟨ofDry, isValue⟩ := value_formed formed ran ofDry
    refine ⟨ofProbe ?_, isValue⟩
    rcases memory with none | same | inserted
    · simp [none]
    · exact same ▸ ofStart.probed
    · intro pos other found
      rw [inserted, Std.TreeMap.getElem?_insert] at found
      split at found
      · obtain rfl := Option.some.inj found
        exact isValue
      · exact ofDry.probed pos other found

/-! ### Conversions and constants -/

theorem convertTop_formed {target : JType} (proper : v.proper target) (source : JType) :
    Preserves v.Formed (convertTop ctx source target (conversion ctx source target)) := by
  rw [convertTop_conversion]
  refine .ite (fun _ => .pure trivial) fun _ => .ite (fun _ => .throw _) fun _ => ?_
  exact (emitAll_formed (v.writes_classify proper source)).bind fun _ _ =>
    onFrame_formed (Typed.replaceTop fun notVoid => ⟨notVoid, proper⟩)

theorem coerceTop_formed {target : JType} (proper : v.proper target) :
    Preserves v.Formed (coerceTop ctx target) :=
  peek_formed.bind fun source _ => .ite (fun _ => convertTop_formed proper source) fun _ => .throw _

theorem castTop_formed {target : JType} (proper : v.proper target) :
    Preserves v.Formed (castTop ctx target) := by
  rw [castTop_eq]
  exact peek_formed.bind fun source _ => convertTop_formed proper source

theorem proper_primitive (p : Primitive) : v.proper (.primitive p) :=
  v.simple rfl

theorem constant_formed (literal : Literal) : Preserves v.Formed (constant ctx literal) :=
  (emit_formed (.constant literal)).bind fun _ _ =>
    push_formed (v.simple (by cases literal <;> rfl))

theorem source_formed (code : Opcode) {ty : JType} (proper : v.proper ty) :
    Preserves v.Formed (source ctx code ty) :=
  (emitOp_formed code).bind fun _ _ => push_formed proper

theorem boolean_formed (value : Bool) : Preserves v.Formed (boolean ctx value) :=
  source_formed _ (proper_primitive _)

theorem loadSlot_formed {ty : JType} (slot : Slot) (isValue : v.Value ty) :
    Preserves v.Formed (loadSlot ctx slot ty) :=
  (emit_formed (.load slot isValue.1)).bind fun _ _ => push_formed isValue.2

/-- The receiver is loaded like a variable of its class. -/
theorem emitReceiver_formed : Preserves v.Formed (emit ctx (.var .aload 0)) :=
  have notVoid : JType.self.isVoid = false := rfl
  emit_formed (.load 0 notVoid)

theorem receiverLoad_formed : Preserves v.Formed (receiverLoad ctx) := by
  unfold receiverLoad
  exact .check fun _ => emitReceiver_formed.bind fun _ _ => push_formed (v.simple rfl)

/-! ### Local variables -/

theorem storeSlot_formed (slot : Slot) : Preserves v.Formed (storeSlot ctx slot) :=
  pop_formed.bind fun _ isValue => emit_formed (.store slot isValue.1)

theorem slotOf_formed (ref : LocalRef) : Preserves v.Formed (slotOf ref) := by
  cases ref with
  | named name => exact onFrame_formed (Typed.resolveIndex name)
  | slot index => exact .pure trivial

theorem load_formed (ref : LocalRef) : Preserves v.Formed (load ctx ref) :=
  (slotOf_formed ref).bind fun slot _ =>
    (onFrame_formed (Typed.localType slot)).bind fun _ isValue => loadSlot_formed slot isValue

theorem storeTarget_formed (target : LocalRef) :
    Preserves v.Formed (storeTarget target) fun found => ∀ ty, found.2 = some ty → v.Value ty := by
  cases target with
  | named name =>
      refine (onFrame_formed (Typed.resolveIndex name)).bind fun slot _ =>
        (onFrame_formed (Typed.localType slot)).bind fun ty isValue => .pure ?_
      rintro _ ⟨⟩
      exact isValue
  | slot index =>
      rintro s _ _ ⟨⟩ formed
      exact ⟨formed, formed.frame.locals index.toNat⟩

theorem store_formed (target : LocalRef) {init : Gen Unit} (formed : Preserves v.Formed init) :
    Preserves v.Formed (store ctx target init) := by
  refine (storeTarget_formed target).bind fun found declared =>
    (value_formed formed).bind fun ty isValue => ?_
  obtain ⟨slot, type⟩ := found
  cases type with
  | some type =>
      exact (coerceTop_formed (declared type rfl).2).bind fun _ _ => storeSlot_formed slot
  | none =>
      exact (onFrame_formed (Typed.setLocal slot isValue)).bind fun _ _ => storeSlot_formed slot

theorem addLocal_formed (name : Option String) {ty : JType} (proper : v.proper ty) :
    Preserves v.Formed (onFrame (Frame.addLocal name ty)) :=
  onFrame_formed (Typed.addLocal name fun notVoid => ⟨notVoid, proper⟩)

theorem declare_formed (name : String) {ty : JType} (proper : v.proper ty) {init : Gen Unit}
    (formed : Preserves v.Formed init) : Preserves v.Formed (declare ctx name ty init) :=
  (value_formed formed).bind fun _ _ => (coerceTop_formed proper).bind fun _ _ =>
    (addLocal_formed _ proper).bind fun slot _ => storeSlot_formed slot

theorem declareUninit_formed (name : String) {ty : JType} (proper : v.proper ty) :
    Preserves v.Formed (declareUninit name ty) :=
  (addLocal_formed _ proper).bind fun _ _ => .pure trivial

theorem increment_formed (target : LocalRef) (step : Int32) :
    Preserves v.Formed (increment ctx target step) := by
  refine (slotOf_formed target).bind fun slot _ =>
    (onFrame_formed (Typed.localType slot)).bind fun ty isValue => ?_
  cases ty.asPrimitive?.filter Primitive.isNumeric with
  | none => exact .throw _
  | some p =>
      exact (loadSlot_formed slot isValue).bind fun _ _ => (constant_formed _).bind fun _ _ =>
        (popN_formed 2).bind fun _ _ => (emitOp_formed _).bind fun _ _ =>
          (push_formed (proper_primitive _)).bind fun _ _ =>
            (castTop_formed isValue.2).bind fun _ _ => storeSlot_formed slot

/-! ### Members -/

theorem checkAccess_formed (m : Member) :
    Preserves v.Formed (checkAccess ctx m) fun _ =>
      ctx.table.isAccessible .self m.owner m.access = true :=
  .ite (fun holds => .pure holds) fun _ => .throw _

theorem resolveField_formed (owner : JType) (name : String) :
    Preserves v.Formed (resolveField ctx owner name) fun m =>
      ctx.table.Finds m ∧ ctx.table.isAccessible .self m.owner m.access = true ∧
        m.kind = .field := by
  unfold resolveField
  split
  · exact .throw _
  · rename_i m found
    exact (checkAccess_formed m).bind fun _ accessible =>
      .pure ⟨.inl ⟨owner, name, found⟩, accessible, (MemberTable.of_resolveField found).2⟩

theorem resolveMethod_formed (owner : JType) (name : String) (args : List JType)
    (isConstructor : Bool) :
    Preserves v.Formed (resolveMethod ctx owner name args isConstructor) fun m =>
      ctx.table.Finds m ∧ ctx.table.isAccessible .self m.owner m.access = true ∧
        m.kind ≠ .field ∧ m.name = if isConstructor then constructorName else name := by
  unfold resolveMethod
  split
  · exact .throw _
  · rename_i m found
    exact (checkAccess_formed m).bind fun _ accessible =>
      .pure ⟨.inr ⟨owner, name, args, isConstructor, found⟩, accessible,
        (MemberTable.of_resolve found).2⟩

theorem receiver_formed (use : ReceiverUse) : Preserves v.Formed (receiver use) :=
  peek_formed.bind fun _ _ => .check fun _ => .pure trivial

theorem staticField_formed (owner : JType) (name : String) :
    Preserves v.Formed (staticField ctx owner name) fun m =>
      v.Names .getstatic m ∧ v.Names .putstatic m :=
  (resolveField_formed owner name).bind fun _ ⟨found, accessible, field⟩ =>
    .ite (fun isStatic =>
      have fits := Member.mem_opcodes_of_static_field field isStatic
      .pure ⟨⟨found, accessible, .inl fits.1⟩, ⟨found, accessible, .inl fits.2⟩⟩) fun _ => .throw _

theorem instanceField_formed (name : String) :
    Preserves v.Formed (instanceField ctx name) fun m =>
      v.Names .getfield m ∧ v.Names .putfield m :=
  (receiver_formed _).bind fun owner _ =>
    (resolveField_formed owner name).bind fun _ ⟨found, accessible, field⟩ =>
      .ite (fun _ => .throw _) fun isStatic =>
        have fits := Member.mem_opcodes_of_field field isStatic
        .pure ⟨⟨found, accessible, .inl fits.1⟩, ⟨found, accessible, .inl fits.2⟩⟩

end Gen

namespace Vocabulary.Names

variable {ctx : Context} {v : Vocabulary ctx} {code : Opcode} {m : Member}

theorem valueType (names : v.Names code m) : v.proper m.valueType :=
  v.valueType names.found.mem

theorem param (names : v.Names code m) : ∀ ty ∈ m.params, v.proper ty :=
  v.param names.found.mem

end Vocabulary.Names

namespace Gen

variable {ctx : Context} {v : Vocabulary ctx}

theorem getStatic_formed (owner : JType) (name : String) :
    Preserves v.Formed (getStatic ctx owner name) :=
  (staticField_formed owner name).bind fun _ names =>
    (emit_formed (.member names.1)).bind fun _ _ => push_formed names.1.valueType

theorem putStatic_formed (owner : JType) (name : String) {code : Gen Unit}
    (formed : Preserves v.Formed code) : Preserves v.Formed (putStatic ctx owner name code) :=
  (staticField_formed owner name).bind fun _ names => (value_formed formed).bind fun _ _ =>
    (coerceTop_formed names.1.valueType).bind fun _ _ => pop_formed.bind fun _ _ =>
      emit_formed (.member names.2)

theorem getField_formed (name : String) : Preserves v.Formed (getField ctx name) :=
  (instanceField_formed name).bind fun _ names => pop_formed.bind fun _ _ =>
    (emit_formed (.member names.1)).bind fun _ _ => push_formed names.1.valueType

theorem putField_formed (name : String) {code : Gen Unit} (formed : Preserves v.Formed code) :
    Preserves v.Formed (putField ctx name code) :=
  (instanceField_formed name).bind fun _ names => (value_formed formed).bind fun _ _ =>
    (coerceTop_formed names.1.valueType).bind fun _ _ => (popN_formed 2).bind fun _ _ =>
      emit_formed (.member names.2)

/-! ### Calls -/

theorem probeAll_formed {args : List Operand}
    (formed : ∀ arg ∈ args, Preserves v.Formed arg.code) :
    Preserves v.Formed (probeAll ctx args) := by
  induction args with
  | nil => exact .pure trivial
  | cons arg rest ih =>
      rw [List.forall_mem_cons] at formed
      exact (probe_formed formed.1).bind fun _ _ => (ih formed.2).bind fun _ _ => .pure trivial

theorem arguments_formed {args : List Operand} {params : List JType}
    (formed : ∀ arg ∈ args, Preserves v.Formed arg.code) (proper : ∀ ty ∈ params, v.proper ty) :
    Preserves v.Formed (arguments ctx args params) := by
  induction args generalizing params with
  | nil => exact .pure trivial
  | cons arg rest ih =>
      cases params with
      | nil => exact .pure trivial
      | cons param params =>
          rw [List.forall_mem_cons] at formed proper
          exact (value_formed formed.1).bind fun _ _ =>
            (coerceTop_formed proper.1).bind fun _ _ => ih formed.2 proper.2

theorem finishCall_formed {code : Opcode} {m : Member} (names : v.Names code m)
    (hasReceiver : Bool) : Preserves v.Formed (finishCall ctx code m hasReceiver) :=
  (popN_formed _).bind fun _ _ => (emit_formed (.member names)).bind fun _ _ =>
    .ite (fun _ => push_formed names.valueType) fun _ => .pure trivial

theorem invokeOpcode_mem_callOpcodes {m : Member} (isInstance : ¬m.isStatic = true) :
    invokeOpcode m ∈ m.callOpcodes := by
  unfold invokeOpcode Member.callOpcodes
  rw [if_neg isInstance]
  split
  · simp
  · split <;> simp

section Calls

variable {args : List Operand} (formed : ∀ arg ∈ args, Preserves v.Formed arg.code)

include formed

theorem invoke_formed {name : String} (called : v.called name) :
    Preserves v.Formed (invoke ctx name args) := by
  refine (receiver_formed _).bind fun owner _ => (probeAll_formed formed).bind fun types _ =>
    (resolveMethod_formed owner name types false).bind
      fun m ⟨found, accessible, notField, isNamed⟩ => .check fun isInstance => ?_
  have names : v.Names (invokeOpcode m) m :=
    ⟨found, accessible, (Member.mem_opcodes_of_call notField
      (invokeOpcode_mem_callOpcodes isInstance)).imp_right fun ⟨isInit, calls⟩ =>
        ⟨isInit, isNamed ▸ called, calls⟩⟩
  exact (arguments_formed formed names.param).bind fun _ _ => finishCall_formed names true

theorem invokeStatic_formed (owner : JType) {name : String} (called : v.called name) :
    Preserves v.Formed (invokeStatic ctx owner name args) := by
  refine (probeAll_formed formed).bind fun types _ =>
    (resolveMethod_formed owner name types false).bind
      fun m ⟨found, accessible, notField, isNamed⟩ => .check fun isStatic => ?_
  have calls : .invokestatic ∈ m.callOpcodes := by simp_all [Member.callOpcodes]
  have names : v.Names .invokestatic m :=
    ⟨found, accessible, (Member.mem_opcodes_of_call notField calls).imp_right
      fun ⟨isInit, calls⟩ => ⟨isInit, isNamed ▸ called, calls⟩⟩
  exact (arguments_formed formed names.param).bind fun _ _ => finishCall_formed names false

omit formed in
theorem resolveConstructor_formed (owner : JType) (types : List JType) :
    Preserves v.Formed (resolveMethod ctx owner constructorName types true) fun m =>
      v.Names .invokespecial m :=
  (resolveMethod_formed owner constructorName types true).mono
    fun _ ⟨found, accessible, notField, isNamed⟩ =>
      ⟨found, accessible, .inl (Member.mem_opcodes_of_initializer notField isNamed)⟩

theorem construct_formed {ty : JType} (proper : v.proper ty) :
    Preserves v.Formed (construct ctx ty args) := by
  unfold construct
  refine .check fun instantiable => (probeAll_formed formed).bind fun types _ =>
    (resolveConstructor_formed ty types).bind fun m names => ?_
  have creates : v.Writes (.type .newObject ty) := by
    cases ty <;> simp_all [isInstantiable] <;> exact .type _ rfl (by simp) proper
  exact (emit_formed creates).bind fun _ _ => (push_formed proper).bind fun _ _ =>
    (emitOp_formed .dup).bind fun _ _ => (push_formed proper).bind fun _ _ =>
      (arguments_formed formed names.param).bind fun _ _ => finishCall_formed names true

theorem superInit_formed : Preserves v.Formed (superInit ctx args) := by
  unfold superInit
  exact .check fun _ => (probeAll_formed formed).bind fun types _ =>
    (resolveConstructor_formed _ types).bind fun m names =>
      emitReceiver_formed.bind fun _ _ =>
        (push_formed (v.simple rfl)).bind fun _ _ =>
          (arguments_formed formed names.param).bind fun _ _ => finishCall_formed names true

end Calls

/-! ### Arrays and operators -/

theorem newArray_formed {elem : JType} (proper : v.proper elem) {length : Gen Unit}
    (formed : Preserves v.Formed length) : Preserves v.Formed (newArray ctx elem length) := by
  unfold newArray
  refine .check fun holds => (value_formed formed).bind fun _ _ =>
    (coerceTop_formed (proper_primitive _)).bind fun _ _ => pop_formed.bind fun _ _ => ?_
  simp only [Bool.or_eq_true, decide_eq_true_eq, not_or, Bool.not_eq_true] at holds
  have isArray := push_formed (v.array holds.2 proper)
  cases elem with
  | primitive p => exact (emit_formed (.newarray p)).bind fun _ _ => isArray
  | void => simp [JType.isVoid] at holds
  | null => simp at holds
  | _ => exact (emit_formed (.type .anewarray rfl (by simp) proper)).bind fun _ _ => isArray

theorem arrayElement_formed : Preserves v.Formed arrayElement v.proper := by
  refine peek_formed.bind fun ty isValue => ?_
  cases ty with
  | array elem => exact .pure (v.element isValue.2)
  | _ => exact .throw _

section Arrays

variable {index : Gen Unit} (formed : Preserves v.Formed index)

include formed

theorem arrayLoad_formed : Preserves v.Formed (arrayLoad ctx index) :=
  arrayElement_formed.bind fun _ proper => (value_formed formed).bind fun _ _ =>
    (coerceTop_formed (proper_primitive _)).bind fun _ _ => (popN_formed 2).bind fun _ _ =>
      (emitOp_formed _).bind fun _ _ => push_formed proper

theorem arrayStore_formed {code : Gen Unit} (stored : Preserves v.Formed code) :
    Preserves v.Formed (arrayStore ctx index code) :=
  arrayElement_formed.bind fun _ proper => (value_formed formed).bind fun _ _ =>
    (coerceTop_formed (proper_primitive _)).bind fun _ _ => (value_formed stored).bind fun _ _ =>
      (coerceTop_formed proper).bind fun _ _ => (popN_formed 3).bind fun _ _ => emitOp_formed _

end Arrays

theorem arrayLength_formed : Preserves v.Formed (arrayLength ctx) :=
  arrayElement_formed.bind fun _ _ => pop_formed.bind fun _ _ =>
    (emitOp_formed _).bind fun _ _ => push_formed (proper_primitive _)

theorem operandTypes?_proper {op : ArithOp} {left right result converted : JType}
    (found : operandTypes? op left right = some (result, converted)) :
    v.proper result ∧ v.proper converted := by
  unfold operandTypes? at found
  split at found
  · obtain ⟨p, -, same⟩ := Option.map_eq_some_iff.mp found
    obtain ⟨rfl, rfl⟩ := Prod.mk.inj same
    exact ⟨proper_primitive _, proper_primitive _⟩
  · split at found
    · obtain ⟨rfl, rfl⟩ := Prod.mk.inj (Option.some.inj found)
      exact ⟨proper_primitive _, proper_primitive _⟩
    · obtain ⟨p, -, same⟩ := Option.map_eq_some_iff.mp found
      obtain ⟨rfl, rfl⟩ := Prod.mk.inj same
      exact ⟨proper_primitive _, proper_primitive _⟩

theorem arith_formed (op : ArithOp) {right : Operand} (formed : Preserves v.Formed right.code) :
    Preserves v.Formed (arith ctx op right) := by
  refine peek_formed.bind fun leftType _ => (probe_formed formed).bind fun rightType _ => ?_
  cases found : operandTypes? op leftType rightType with
  | none => exact .throw _
  | some types =>
      obtain ⟨properResult, properRight⟩ := operandTypes?_proper (v := v) found
      have operands : Preserves v.Formed (operands ctx types.1 right.code types.2) :=
        (coerceTop_formed properResult).bind fun _ _ => (value_formed formed).bind fun _ _ =>
          coerceTop_formed properRight
      exact operands.bind fun _ _ => (popN_formed 2).bind fun _ _ =>
        (emitOp_formed _).bind fun _ _ => push_formed properResult

theorem negate_formed : Preserves v.Formed (negate ctx) := by
  refine peek_formed.bind fun ty _ => ?_
  cases ty.unaryPromotion? with
  | none => exact .throw _
  | some p => exact (coerceTop_formed (proper_primitive p)).bind fun _ _ => emitOp_formed _

theorem instanceOf_formed {ty : JType} (proper : v.proper ty) :
    Preserves v.Formed (instanceOf ctx ty) := by
  refine peek_formed.bind fun top _ => .check fun holds => pop_formed.bind fun _ _ => ?_
  simp only [Bool.or_eq_true, Bool.not_eq_true', decide_eq_true_eq, not_or,
    Bool.not_eq_false] at holds
  exact (emit_formed (.type _ holds.1.2 holds.2 proper)).bind fun _ _ =>
    push_formed (proper_primitive _)

theorem discard_formed : Preserves v.Formed (discard ctx) :=
  pop_formed.bind fun _ _ => emitOp_formed _

theorem returnValue_formed : Preserves v.Formed (returnValue ctx) := by
  unfold returnValue
  exact .check fun _ => (coerceTop_formed v.result).bind fun _ _ => pop_formed.bind fun _ _ =>
    emitOp_formed _

theorem returnVoid_formed : Preserves v.Formed (returnVoid ctx) := by
  unfold returnVoid
  exact .check fun _ => emitOp_formed _

theorem raise_formed : Preserves v.Formed (raise ctx) :=
  peek_formed.bind fun _ _ => .check fun _ => pop_formed.bind fun _ _ => emitOp_formed _

end Gen

/-- The type that both arms agree on is the type of one of them. -/
theorem JType.eq_or_eq_of_common {table : MemberTable} {narrow : Bool}
    {thenType elseType ty : JType} (agreed : common table narrow thenType elseType = .ok ty) :
    ty = thenType ∨ ty = elseType := by
  unfold common at agreed
  dsimp only at agreed
  repeat' split at agreed
  all_goals cases agreed <;> simp

/-! ### Branches -/

namespace Gen

variable {ctx : Context} {v : Vocabulary ctx}

/-- A branch that keeps to the vocabulary for every sense and target. -/
def FormedBranch (v : Vocabulary ctx) (branch : Branch) : Prop :=
  ∀ sense target, Preserves v.Formed (branch sense target)

theorem constBranch_formed (value : Bool) : FormedBranch v (constBranch ctx value) :=
  fun _ target => .ite (fun _ => jump_formed _ target) fun _ => .pure trivial

theorem truthBranch_formed (wanted : Bool) {code : Gen Unit} (formed : Preserves v.Formed code) :
    FormedBranch v (truthBranch ctx wanted code) :=
  fun _ target => (value_formed formed).bind fun _ _ =>
    (coerceTop_formed (proper_primitive _)).bind fun _ _ => pop_formed.bind fun _ _ =>
      jump_formed _ target

theorem nullBranch_formed (wanted : Bool) {operand : Operand}
    (formed : Preserves v.Formed operand.code) : FormedBranch v (nullBranch ctx wanted operand) :=
  fun _ target => (probe_formed formed).bind fun _ _ => .check fun _ =>
    (value_formed formed).bind fun _ _ => pop_formed.bind fun _ _ => jump_formed _ target

theorem numericBranch_formed (ty : Primitive) (op : RelOp) (nan : Bool) (target : Label) :
    Preserves v.Formed (numericBranch ctx ty op nan target) := by
  refine (popN_formed 2).bind fun _ _ => ?_
  cases comparison? ty op nan with
  | some code => exact (emitOp_formed code).bind fun _ _ => jump_formed _ target
  | none => exact jump_formed _ target

theorem identityBranch_formed (equal : Bool) (target : Label) :
    Preserves v.Formed (identityBranch ctx equal target) :=
  (popN_formed 2).bind fun _ _ => jump_formed _ target

section Compare

variable {left right : Operand} (first : Preserves v.Formed left.code)
variable (second : Preserves v.Formed right.code)

include first second

theorem comparands_formed {ty : JType} (proper : v.proper ty) :
    Preserves v.Formed (comparands ctx left right ty) :=
  (value_formed first).bind fun _ _ => (coerceTop_formed proper).bind fun _ _ =>
    (value_formed second).bind fun _ _ => coerceTop_formed proper

theorem compareBranch_formed (op : RelOp) (nan : Bool) :
    FormedBranch v (compareBranch ctx op left right nan) := by
  intro sense target
  refine (probe_formed first).bind fun leftType isValue => (probe_formed second).bind
    fun rightType _ => .check fun _ => .check fun _ => .ite (fun _ => ?_) fun _ =>
      .ite (fun _ => ?_) fun _ => ?_
  · exact (value_formed first).bind fun _ _ => (value_formed second).bind fun _ _ =>
      identityBranch_formed _ target
  · exact .check fun _ => (comparands_formed first second (proper_primitive _)).bind fun _ _ =>
      (popN_formed 2).bind fun _ _ => jump_formed _ target
  · cases JType.binaryPromotion? leftType rightType with
    | some promoted =>
        exact (comparands_formed first second (proper_primitive _)).bind fun _ _ =>
          numericBranch_formed promoted _ _ target
    | none =>
        dsimp only
        split
        · exact .throw _
        · exact (value_formed first).bind fun _ _ => (value_formed second).bind fun _ _ =>
            (coerceTop_formed isValue.2).bind fun _ _ => numericBranch_formed _ _ _ target
        · exact .ite (fun _ => (value_formed first).bind fun _ _ =>
            (value_formed second).bind fun _ _ => (coerceTop_formed (v.simple rfl)).bind fun _ _ =>
              identityBranch_formed _ target) fun _ => .throw _
        · exact .throw _

end Compare

theorem untilDead_formed {actions : List (Gen Unit)}
    (formed : ∀ action ∈ actions, Preserves v.Formed action) :
    Preserves v.Formed (untilDead actions) := by
  induction actions with
  | nil => exact .pure trivial
  | cons action rest ih =>
      rw [List.forall_mem_cons] at formed
      exact formed.1.bind fun _ _ => whenAlive_formed (ih formed.2)

section Junctions

variable {parts : List Branch} (formed : ∀ part ∈ parts, FormedBranch v part)

include formed

theorem eachBranch_formed (sense : Bool) (target : Label) :
    Preserves v.Formed (eachBranch parts sense target) := by
  refine untilDead_formed fun action mem => ?_
  obtain ⟨part, isPart, rfl⟩ := List.mem_map.mp mem
  exact formed part isPart sense target

theorem lastBranch_formed (sense : Bool) (target : Label) :
    Preserves v.Formed (lastBranch ctx parts sense target) := by
  unfold lastBranch
  split
  · exact jump_formed _ target
  · rename_i last isLast
    exact newLabel_formed.bind fun skip _ =>
      (eachBranch_formed (fun part mem => formed part (List.mem_of_mem_dropLast mem))
        (!sense) skip).bind fun _ _ =>
          (whenAlive_formed (formed last (List.mem_of_getLast? isLast) sense target)).bind
            fun _ _ => place_formed skip

theorem conjBranch_formed : FormedBranch v (conjBranch ctx parts) := by
  intro sense target
  cases sense with
  | true => exact lastBranch_formed formed true target
  | false => exact eachBranch_formed formed false target

theorem disjBranch_formed : FormedBranch v (disjBranch ctx parts) := by
  intro sense target
  cases sense with
  | true => exact eachBranch_formed formed true target
  | false => exact lastBranch_formed formed false target

end Junctions

/-! ### Statements -/

section Statements

variable {cond : Branch} (branches : FormedBranch v cond)

include branches

theorem ifThen_formed {body : Gen Unit} (formed : Preserves v.Formed body) :
    Preserves v.Formed (ifThen ctx cond body) :=
  newLabel_formed.bind fun stop _ => (branches false stop).bind fun _ _ =>
    (whenAlive_formed (inScope_formed formed)).bind fun _ _ => place_formed stop

theorem ifElse_formed {body otherwise : Gen Unit} (first : Preserves v.Formed body)
    (second : Preserves v.Formed otherwise) :
    Preserves v.Formed (ifElse ctx cond body otherwise) :=
  newLabel_formed.bind fun stop _ => newLabel_formed.bind fun elseLabel _ =>
    (branches false elseLabel).bind fun _ _ =>
      (whenAlive_formed (inScope_formed first)).bind fun _ _ =>
        (whenAlive_formed (jump_formed _ stop)).bind fun _ _ =>
          (place_formed elseLabel).bind fun _ _ =>
            (whenAlive_formed (inScope_formed second)).bind fun _ _ => place_formed stop

theorem whileLoop_formed {body : Gen Unit} (formed : Preserves v.Formed body) :
    Preserves v.Formed (whileLoop ctx cond body) :=
  newLabel_formed.bind fun start _ => newLabel_formed.bind fun stop _ =>
    (place_formed start).bind fun _ _ => (branches false stop).bind fun _ _ =>
      (whenAlive_formed ((inScope_formed formed).bind fun _ _ =>
        whenAlive_formed (jump_formed _ start))).bind fun _ _ => place_formed stop

omit branches in
theorem arm_formed {ty : JType} (proper : v.proper ty) {code : Gen Unit}
    (formed : Preserves v.Formed code) : Preserves v.Formed (arm ctx ty code) :=
  inScope_formed ((value_formed formed).bind fun _ _ => coerceTop_formed proper)

theorem conditional_formed {thenArm elseArm : Operand} (first : Preserves v.Formed thenArm.code)
    (second : Preserves v.Formed elseArm.code) :
    Preserves v.Formed (conditional ctx cond thenArm elseArm) := by
  refine (probe_formed first).bind fun thenType isThen =>
    (probe_formed second).bind fun elseType isElse => ?_
  cases agreed : JType.common ctx.table ctx.config.narrowReinterpretation thenType elseType with
  | error e => exact .throw e
  | ok ty =>
      have proper : v.proper ty := by
        rcases JType.eq_or_eq_of_common agreed with rfl | rfl
        · exact isThen.2
        · exact isElse.2
      exact newLabel_formed.bind fun elseLabel _ => newLabel_formed.bind fun stop _ =>
        (branches false elseLabel).bind fun _ _ =>
          (whenAlive_formed ((arm_formed proper first).bind fun _ _ =>
            jump_formed _ stop)).bind fun _ _ => (place_formed elseLabel).bind fun _ _ =>
              (whenAlive_formed (arm_formed proper second)).bind fun _ _ => place_formed stop

theorem condValue_formed : Preserves v.Formed (condValue ctx cond) :=
  newLabel_formed.bind fun whenFalse _ => newLabel_formed.bind fun stop _ =>
    (branches false whenFalse).bind fun _ _ =>
      (whenAlive_formed ((boolean_formed true).bind fun _ _ => jump_formed _ stop)).bind
        fun _ _ => (place_formed whenFalse).bind fun _ _ =>
          (whenAlive_formed (boolean_formed false)).bind fun _ _ => place_formed stop

end Statements

end Gen

/-! ## Bodies -/

/-- What a body takes from its surroundings: a type, or a method by its name. -/
inductive Mention where
  | type (ty : JType)
  | call (name : String)
  deriving DecidableEq

mutual

/-- Every type and every name of a called method in an operation. -/
def Op.mentions : Op → List Mention
  | .declareUninit _ ty | .getStatic ty _ | .cast ty | .convert ty | .instanceOf ty => [.type ty]
  | .declare _ ty value | .putStatic ty _ value | .newArray ty value =>
      .type ty :: mentionsIn value
  | .invoke name args => .call name :: mentionsInArgs args
  | .invokeStatic owner name args => .type owner :: .call name :: mentionsInArgs args
  | .construct ty args => .type ty :: mentionsInArgs args
  | .superInit args => mentionsInArgs args
  | .store _ value | .putField _ value | .arrayLoad value | .arith _ value | .block value =>
      mentionsIn value
  | .arrayStore index value => mentionsIn index ++ mentionsIn value
  | .ifThen cond body | .whileLoop cond body => cond.mentions ++ mentionsIn body
  | .ifElse cond first second | .conditional cond first second =>
      cond.mentions ++ mentionsIn first ++ mentionsIn second
  | .condValue cond => cond.mentions
  | _ => []

/-- Every type and every name of a called method in operations. -/
def mentionsIn : List Op → List Mention
  | [] => []
  | op :: rest => op.mentions ++ mentionsIn rest

/-- Every type and every name of a called method in arguments. -/
def mentionsInArgs : List (List Op) → List Mention
  | [] => []
  | arg :: rest => mentionsIn arg ++ mentionsInArgs rest

/-- Every type and every name of a called method in a condition. -/
def Cond.mentions : Cond → List Mention
  | .const _ => []
  | .truth value | .falsity value | .isNull value | .nonNull value => mentionsIn value
  | .compare _ left right _ => mentionsIn left ++ mentionsIn right
  | .conj parts | .disj parts => mentionsInParts parts

/-- Every type and every name of a called method in conditions. -/
def mentionsInParts : List Cond → List Mention
  | [] => []
  | part :: rest => part.mentions ++ mentionsInParts rest

end

/-- The vocabulary has what is mentioned. -/
structure Vocabulary.Has {ctx : Context} (v : Vocabulary ctx) (mentions : List Mention) : Prop where
  type : ∀ ty, .type ty ∈ mentions → v.proper ty
  call : ∀ name, .call name ∈ mentions → v.called name

theorem Vocabulary.Has.mono {ctx : Context} {v : Vocabulary ctx} {mentions fewer : List Mention}
    (has : v.Has mentions) (subset : fewer ⊆ mentions) : v.Has fewer :=
  ⟨fun ty mem => has.type ty (subset mem), fun name mem => has.call name (subset mem)⟩

section

open Gen

variable {ctx : Context} {v : Vocabulary ctx}

mutual

/-- Operations whose types and calls are in the vocabulary keep to it. -/
theorem Op.body_formed (pos : Position) :
    (op : Op) → v.Has op.mentions → Preserves v.Formed (op.body ctx pos)
  | .constant value, _ => constant_formed value
  | .boolean value, _ => boolean_formed value
  | .null, _ => source_formed _ (v.simple rfl)
  | .this, _ => receiverLoad_formed
  | .load source, _ => load_formed source
  | .store target value, has => store_formed target (codeFrom_formed _ 0 value has)
  | .declare name type init, has =>
      declare_formed name (has.type type (by simp [Op.mentions]))
        (codeFrom_formed _ 0 init (has.mono (by simp [Op.mentions])))
  | .declareUninit name type, has =>
      declareUninit_formed name (has.type type (by simp [Op.mentions]))
  | .increment target step, _ => increment_formed target step
  | .getField name, _ => getField_formed name
  | .putField name value, has => putField_formed name (codeFrom_formed _ 0 value has)
  | .getStatic owner name, _ => getStatic_formed owner name
  | .putStatic owner name value, has =>
      putStatic_formed owner name (codeFrom_formed _ 0 value (has.mono (by simp [Op.mentions])))
  | .invoke name args, has =>
      invoke_formed (operandsFrom_formed pos 0 args (has.mono (by simp [Op.mentions])))
        (has.call name (by simp [Op.mentions]))
  | .invokeStatic owner name args, has =>
      invokeStatic_formed
        (operandsFrom_formed pos 0 args (has.mono fun _ mem => by simp [Op.mentions, mem])) owner
        (has.call name (by simp [Op.mentions]))
  | .construct type args, has =>
      construct_formed (operandsFrom_formed pos 0 args (has.mono (by simp [Op.mentions])))
        (has.type type (by simp [Op.mentions]))
  | .superInit args, has => superInit_formed (operandsFrom_formed pos 0 args has)
  | .newArray elem length, has =>
      newArray_formed (has.type elem (by simp [Op.mentions]))
        (codeFrom_formed _ 0 length (has.mono (by simp [Op.mentions])))
  | .arrayLoad index, has => arrayLoad_formed (codeFrom_formed _ 0 index has)
  | .arrayStore index value, has =>
      arrayStore_formed (codeFrom_formed _ 0 index (has.mono (by simp [Op.mentions])))
        (codeFrom_formed _ 0 value (has.mono (by simp [Op.mentions])))
  | .arrayLength, _ => arrayLength_formed
  | .arith op right, has => arith_formed op (codeFrom_formed _ 0 right has)
  | .negate, _ => negate_formed
  | .cast target, has => castTop_formed (has.type target (by simp [Op.mentions]))
  | .convert target, has => coerceTop_formed (has.type target (by simp [Op.mentions]))
  | .instanceOf type, has => instanceOf_formed (has.type type (by simp [Op.mentions]))
  | .pop, _ => discard_formed
  | .returnValue, _ => returnValue_formed
  | .returnVoid, _ => returnVoid_formed
  | .throw, _ => raise_formed
  | .ifThen cond body, has =>
      ifThen_formed (cond.branch_formed _ (has.mono (by simp [Op.mentions])))
        (codeFrom_formed _ 0 body (has.mono (by simp [Op.mentions])))
  | .ifElse cond body otherwise, has =>
      ifElse_formed (cond.branch_formed _ (has.mono (by simp [Op.mentions])))
        (codeFrom_formed _ 0 body (has.mono (by simp [Op.mentions])))
        (codeFrom_formed _ 0 otherwise (has.mono (by simp [Op.mentions])))
  | .whileLoop cond body, has =>
      whileLoop_formed (cond.branch_formed _ (has.mono (by simp [Op.mentions])))
        (codeFrom_formed _ 0 body (has.mono (by simp [Op.mentions])))
  | .conditional cond thenArm elseArm, has =>
      conditional_formed (cond.branch_formed _ (has.mono (by simp [Op.mentions])))
        (codeFrom_formed _ 0 thenArm (has.mono (by simp [Op.mentions])))
        (codeFrom_formed _ 0 elseArm (has.mono (by simp [Op.mentions])))
  | .condValue cond, has => condValue_formed (cond.branch_formed _ has)
  | .block body, has => inScope_formed (codeFrom_formed _ 0 body has)
  | .malformed _, _ => .throw _

theorem codeFrom_formed (pos : Position) (index : Nat) :
    (ops : List Op) → v.Has (mentionsIn ops) → Preserves v.Formed (codeFrom ctx pos index ops)
  | [], _ => .pure trivial
  | op :: rest, has =>
      (operation_formed op.name
        (op.body_formed _ (has.mono (by simp [mentionsIn])))).bind fun _ _ =>
          codeFrom_formed pos (index + 1) rest (has.mono (by simp [mentionsIn]))

theorem operandsFrom_formed (pos : Position) (index : Nat) :
    (args : List (List Op)) → v.Has (mentionsInArgs args) →
      ∀ arg ∈ operandsFrom ctx pos index args, Preserves v.Formed arg.code
  | [], _ => by simp [operandsFrom]
  | arg :: rest, has =>
      List.forall_mem_cons.mpr
        ⟨codeFrom_formed _ 0 arg (has.mono (by simp [mentionsInArgs])),
          operandsFrom_formed pos (index + 1) rest (has.mono (by simp [mentionsInArgs]))⟩

theorem Cond.branch_formed (pos : Position) :
    (c : Cond) → v.Has c.mentions → FormedBranch v (c.branch ctx pos)
  | .const value, _ => constBranch_formed value
  | .truth value, has => truthBranch_formed true (codeFrom_formed _ 0 value has)
  | .falsity value, has => truthBranch_formed false (codeFrom_formed _ 0 value has)
  | .isNull value, has => nullBranch_formed true (codeFrom_formed _ 0 value has)
  | .nonNull value, has => nullBranch_formed false (codeFrom_formed _ 0 value has)
  | .compare op left right nan, has =>
      compareBranch_formed (codeFrom_formed _ 0 left (has.mono (by simp [Cond.mentions])))
        (codeFrom_formed _ 0 right (has.mono (by simp [Cond.mentions]))) op nan
  | .conj parts, has => conjBranch_formed (branchesFrom_formed pos 0 parts has)
  | .disj parts, has => disjBranch_formed (branchesFrom_formed pos 0 parts has)

theorem branchesFrom_formed (pos : Position) (index : Nat) :
    (parts : List Cond) → v.Has (mentionsInParts parts) →
      ∀ part ∈ branchesFrom ctx pos index parts, FormedBranch v part
  | [], _ => by simp [branchesFrom]
  | part :: rest, has =>
      List.forall_mem_cons.mpr
        ⟨part.branch_formed _ (has.mono (by simp [mentionsInParts])),
          branchesFrom_formed pos (index + 1) rest (has.mono (by simp [mentionsInParts]))⟩

end

end

/-! ## Methods -/

namespace Gen

variable {ctx : Context} {v : Vocabulary ctx} {spec : MethodSpec}

theorem bindParams_formed {params : List (String × JType)}
    (proper : ∀ param ∈ params, v.proper param.2) : Preserves v.Formed (bindParams params) := by
  induction params with
  | nil => exact .pure trivial
  | cons param rest ih =>
      rw [List.forall_mem_cons] at proper
      exact (addLocal_formed _ proper.1).bind fun _ _ => ih proper.2

theorem close_formed (spec : MethodSpec) : Preserves v.Formed (close ctx spec) := by
  intro s _ t run formed
  exact emitOp_formed _ (close_eq_ok run).2.2 formed

/-- Every instruction of a method has one of the forms of the vocabulary. -/
theorem method_formed {limits : Limits} {t : State} (has : v.Has (mentionsIn spec.body))
    (proper : ∀ param ∈ spec.params, v.proper param.2)
    (run : method ctx spec {} = .ok limits t) : ∀ instr ∈ t.code, v.Writes instr := by
  obtain ⟨log, bound, generated, closed, binds, generates, closes, outputEq, -⟩ := method_eq_ok run
  have start : v.Formed { log } :=
    ⟨⟨by simp, by simp, by simp [Frame.slotType?, Frame.typeIn?]⟩, by simp, by simp [State.code]⟩
  have params : ∀ param ∈ spec.bindings, v.proper param.2 := by
    intro param mem
    unfold MethodSpec.bindings at mem
    split at mem
    · exact proper param mem
    · rcases List.mem_cons.mp mem with rfl | mem
      · exact v.simple rfl
      · exact proper param mem
  have ofBound := (bindParams_formed params binds start).1
  have ofBody := (codeFrom_formed [] 0 spec.body has generates ofBound).1
  have ofClosed := (whenAlive_formed (close_formed spec) closes ofBody).1
  rw [State.code, outputEq]
  exact ofClosed.instrs

end Gen

/-- Every instruction of an assembled method has one of the forms of the
vocabulary. -/
theorem MethodSpec.writes_of_assemble {cls : ClassContext} {spec : MethodSpec}
    {method : AssembledMethod} (v : Vocabulary (spec.context cls))
    (has : v.Has (mentionsIn spec.body)) (proper : ∀ param ∈ spec.params, v.proper param.2)
    (assembled : spec.assemble cls = .ok method) : ∀ instr ∈ method.instrs, v.Writes instr := by
  obtain ⟨limits, s, ran, rfl⟩ := exists_method_of_assemble assembled
  exact Gen.method_formed has proper ran

end JvmAssembler
