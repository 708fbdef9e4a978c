import Mathlib
import JvmAssembler.Proofs.LocalLimit

/-!
# What instructions generation writes

The instructions of a method come from a vocabulary: each has one of a few
forms, and the types and members that it names come from the body, the method
or the member table.  Types reach an instruction through the operand stack, the
local variables, the recorded shapes and the memory of probes, so all of these
hold types of the vocabulary too.

An action is described by what its successful runs preserve, with a property of
its result.
-/

namespace JvmAssembler

/-! ## What runs preserve -/

/-- Successful runs keep the invariant and return results with a property. -/
def Preserves {σ α : Type} (inv : σ → Prop) (x : EStateM Error σ α)
    (post : α → Prop := fun _ => True) : Prop :=
  ∀ ⦃s a t⦄, x s = .ok a t → inv s → inv t ∧ post a

namespace Preserves

variable {σ α β : Type} {inv : σ → Prop} {post : α → Prop} {post' : β → Prop}

theorem pure {a : α} (holds : post a) : Preserves inv (pure a : EStateM Error σ α) post := by
  rintro s _ _ ⟨⟩ kept
  exact ⟨kept, holds⟩

theorem throw (e : Error) : Preserves inv (throw e : EStateM Error σ α) post := by
  rintro s _ _ ⟨⟩

theorem bind {x : EStateM Error σ α} {f : α → EStateM Error σ β} (first : Preserves inv x post)
    (second : ∀ a, post a → Preserves inv (f a) post') : Preserves inv (x >>= f) post' := by
  intro s b t run kept
  obtain ⟨a, u, ran, rest⟩ := bind_eq_ok.mp run
  obtain ⟨kept, holds⟩ := first ran kept
  exact second a holds rest kept

theorem mono {x : EStateM Error σ α} {weaker : α → Prop} (preserves : Preserves inv x post)
    (weaken : ∀ a, post a → weaker a) : Preserves inv x weaker :=
  fun _ a _ run kept => (preserves run kept).imp_right (weaken a)

theorem ite {condition : Prop} [Decidable condition] {x y : EStateM Error σ α}
    (first : condition → Preserves inv x post) (second : ¬condition → Preserves inv y post) :
    Preserves inv (if condition then x else y) post := by
  split
  · exact first ‹_›
  · exact second ‹_›

/-- Actions that go on only if a check does not fail. -/
theorem check {condition : Prop} [Decidable condition] {e : Error}
    {next : Unit → EStateM Error σ α} (preserves : ¬condition → Preserves inv (next ()) post) :
    Preserves inv
      (if condition then (MonadExcept.throw e : EStateM Error σ Unit) >>= next else next ())
      post :=
  ite (fun _ => bind (throw e : Preserves inv _ fun _ => False) fun _ => False.elim) preserves

end Preserves

/-! ## Types in frames -/

namespace Frame

variable {value : JType → Prop} {ty : JType}

/-- Operands, recorded shapes and local variables have types with a property. -/
structure Typed (value : JType → Prop) (f : Frame) : Prop where
  stack : ∀ ty ∈ f.stack, value ty
  shapes : ∀ label shape, f.shapes.lookup label = some shape → ∀ ty ∈ shape, value ty
  locals : ∀ i ty, f.slotType? i = some ty → value ty

namespace Typed

theorem fork {f : Frame} (typed : f.Typed value) : f.fork.Typed value :=
  ⟨typed.stack, by simp [Frame.fork], typed.locals⟩

theorem push (fits : ty.isVoid = false → value ty) : Preserves (Typed value) (push ty) := by
  intro f _ g run typed
  obtain ⟨notVoid, rfl⟩ := push_eq_ok.mp run
  exact ⟨⟨List.forall_mem_cons.mpr ⟨fits notVoid, typed.stack⟩, typed.shapes, typed.locals⟩,
    trivial⟩

theorem pop : Preserves (Typed value) pop value := by
  intro f top g run typed
  obtain ⟨rest, stackEq, rfl⟩ := pop_eq_ok.mp run
  obtain ⟨isValue, others⟩ := List.forall_mem_cons.mp (stackEq ▸ typed.stack)
  exact ⟨⟨others, typed.shapes, typed.locals⟩, isValue⟩

theorem popN (n : Nat) : Preserves (Typed value) (popN n) := by
  intro f types g run typed
  obtain ⟨-, -, rfl⟩ := popN_eq_ok.mp run
  exact ⟨⟨fun ty mem => typed.stack ty (List.mem_of_mem_drop mem), typed.shapes, typed.locals⟩,
    trivial⟩

theorem peek : Preserves (Typed value) peek value := by
  intro f top g run typed
  obtain ⟨⟨rest, stackEq⟩, rfl⟩ := peek_eq_ok.mp run
  exact ⟨typed, typed.stack _ (by simp [stackEq])⟩

theorem replaceTop (fits : ty.isVoid = false → value ty) :
    Preserves (Typed value) (replaceTop ty) :=
  pop.bind fun _ _ => push fits

/-- Writing a type into the table adds no other. -/
theorem writeSlots {f : Frame} (typed : f.Typed value) (notVoid : ty.isVoid = false)
    (isValue : value ty) (index : Nat) : (f.writeSlots index ty).Typed value := by
  refine ⟨typed.stack, typed.shapes, fun i found isTy => ?_⟩
  rcases typeIn?_of_written notVoid isTy with ⟨rfl, -⟩ | old
  · exact isValue
  · exact typed.locals i found old

theorem setLocal (slot : Slot) (isValue : value ty) :
    Preserves (Typed value) (setLocal slot ty) := by
  intro f _ g run typed
  obtain ⟨storable, rfl⟩ := setLocal_eq_ok.mp run
  exact ⟨typed.writeSlots storable.value isValue _, trivial⟩

theorem addLocal (name : Option String) (fits : ty.isVoid = false → value ty) :
    Preserves (Typed value) (addLocal name ty) := by
  intro f slot g run typed
  obtain ⟨-, storable, -, rfl⟩ := addLocal_eq_ok.mp run
  have written := typed.writeSlots storable.value (fits storable.value) f.locals.size
  refine ⟨⟨typed.stack, typed.shapes, fun i found isTy => written.locals i found ?_⟩, trivial⟩
  rwa [slotType?, added, typeIn?_renamed] at isTy

theorem resolveIndex (name : String) : Preserves (Typed value) (resolveIndex name) := by
  intro f slot g run typed
  obtain ⟨rfl, -⟩ := resolveIndex_eq_ok.mp run
  exact ⟨typed, trivial⟩

theorem localType (slot : Slot) : Preserves (Typed value) (localType slot) value := by
  intro f found g run typed
  obtain ⟨isTy, rfl⟩ := localType_eq_ok.mp run
  exact ⟨typed, typed.locals _ _ isTy⟩

theorem beginScope : Preserves (Typed value) beginScope := by
  rintro f _ _ ⟨⟩ typed
  exact ⟨⟨typed.stack, typed.shapes, typed.locals⟩, trivial⟩

theorem endScope : Preserves (Typed value) endScope := by
  intro f _ g run typed
  obtain ⟨start, rest, -, rfl⟩ := endScope_eq_ok.mp run
  refine ⟨⟨typed.stack, typed.shapes, fun i found isTy => typed.locals i found ?_⟩, trivial⟩
  rw [slotType?, typeIn?_take, Option.ite_none_right_eq_some] at isTy
  exact isTy.2

theorem markDead : Preserves (Typed value) markDead := by
  rintro f _ _ ⟨⟩ typed
  exact ⟨⟨typed.stack, typed.shapes, typed.locals⟩, trivial⟩

theorem jumpTo (label : Label) : Preserves (Typed value) (jumpTo label) := by
  intro f _ g run typed
  obtain ⟨records, shapes, rfl⟩ := merge_eq_ok run
  refine ⟨⟨typed.stack, fun other shape found => ?_, typed.locals⟩, trivial⟩
  rw [records.lookup_eq] at found
  split at found
  · obtain rfl := Option.some.inj found
    exact typed.stack
  · exact typed.shapes other shape found

theorem place (label : Label) : Preserves (Typed value) (place label) := by
  intro f _ g run typed
  rcases place_eq_ok.mp run with ⟨-, merged⟩ | ⟨-, -, rfl⟩ | ⟨-, shape, known, rfl⟩
  · exact jumpTo label merged typed
  · exact ⟨typed, trivial⟩
  · exact ⟨⟨typed.shapes label shape known, typed.shapes, typed.locals⟩, trivial⟩

end Typed

end Frame

/-! ## Members by lookup -/

namespace Member

/-- Constructors, and methods declared under the name of constructors. -/
def isInitializer (m : Member) : Bool :=
  m.kind = .constructor || (m.kind = .method && m.name = constructorName)

/-- The opcodes that call a member as a method. -/
def callOpcodes (m : Member) : List Opcode :=
  if m.isStatic then [.invokestatic] else [.invokevirtual, .invokeinterface, .invokespecial]

/-- The opcodes that fit a member. -/
def opcodes (m : Member) : List Opcode :=
  match m.kind with
  | .field => if m.isStatic then [.getstatic, .putstatic] else [.getfield, .putfield]
  | .method | .constructor => if m.isInitializer then [.invokespecial] else m.callOpcodes

end Member

namespace MemberTable

variable {table : MemberTable} {m : Member}

/-- Some lookup finds the member. -/
def Finds (table : MemberTable) (m : Member) : Prop :=
  (∃ owner name, table.resolveField owner name = some m) ∨
    ∃ owner name args isConstructor, table.resolve owner name args isConstructor = some m

theorem mem_of_mem_keepNearest {members : List Member} (mem : m ∈ keepNearest members) :
    m ∈ members := by
  induction members with
  | nil => exact mem
  | cons first rest ih =>
      rcases List.mem_cons.mp mem with rfl | later
      · exact List.mem_cons_self
      · exact List.mem_cons_of_mem _ (ih (List.mem_filter.mp later).1)

/-- A resolved method or constructor is declared under the name that was asked
for. -/
theorem of_resolve {owner : JType} {name : String} {args : List JType} {isConstructor : Bool}
    (found : table.resolve owner name args isConstructor = some m) :
    m ∈ table.members ∧ m.kind ≠ .field ∧
      m.name = if isConstructor then constructorName else name := by
  have isVisible : m ∈ table.visible owner name isConstructor := by
    simp only [resolve] at found
    rcases (Option.orElse_eq_some _ _ _).mp found with exactly | ⟨-, found⟩
    · exact List.mem_of_find?_eq_some exactly
    · rcases (Option.orElse_eq_some _ _ _).mp found with strict | ⟨-, loose⟩
      · exact (List.mem_filter.mp (mem_of_preferred? strict)).1
      · exact (List.mem_filter.mp (mem_of_preferred? loose)).1
  obtain ⟨ty, -, declared⟩ := List.mem_flatMap.mp (mem_of_mem_keepNearest isVisible)
  obtain ⟨declared, kind⟩ := List.mem_filter.mp declared
  obtain ⟨mem, isNamed⟩ := List.mem_filter.mp declared
  simp only [Bool.and_eq_true, decide_eq_true_eq] at isNamed kind
  exact ⟨mem, kind, isNamed.1⟩

theorem of_resolveField {owner : JType} {name : String}
    (found : table.resolveField owner name = some m) : m ∈ table.members ∧ m.kind = .field := by
  obtain ⟨ty, -, found⟩ := List.exists_of_findSome?_eq_some found
  have declared := List.mem_of_find?_eq_some found
  exact ⟨(List.mem_filter.mp declared).1, by simpa using List.find?_some found⟩

theorem Finds.mem (finds : table.Finds m) : m ∈ table.members := by
  rcases finds with ⟨_, _, found⟩ | ⟨_, _, _, _, found⟩
  · exact (of_resolveField found).1
  · exact (of_resolve found).1

end MemberTable

namespace Member

variable {m : Member}

theorem mem_opcodes_of_static_field (field : m.kind = .field) (isStatic : m.isStatic = true) :
    .getstatic ∈ m.opcodes ∧ .putstatic ∈ m.opcodes := by
  simp [opcodes, field, isStatic]

theorem mem_opcodes_of_field (field : m.kind = .field) (isStatic : ¬m.isStatic = true) :
    .getfield ∈ m.opcodes ∧ .putfield ∈ m.opcodes := by
  simp [opcodes, field, isStatic]

/-- An opcode that calls a member as a method fits it, unless it is an
initializer. -/
theorem mem_opcodes_of_call {code : Opcode} (notField : m.kind ≠ .field)
    (calls : code ∈ m.callOpcodes) :
    code ∈ m.opcodes ∨ (m.isInitializer = true ∧ code ∈ m.callOpcodes) := by
  cases isInit : m.isInitializer with
  | true => exact .inr ⟨rfl, calls⟩
  | false => cases kind : m.kind <;> simp_all [opcodes]

theorem mem_opcodes_of_initializer (notField : m.kind ≠ .field)
    (isNamed : m.name = constructorName) : .invokespecial ∈ m.opcodes := by
  cases kind : m.kind <;> simp_all [opcodes, isInitializer]

end Member

/-! ## Vocabularies -/

/-- The types and method names that code may use, with all types that lookups
and operations lead to. -/
structure Vocabulary (ctx : Context) where
  proper : JType → Prop
  called : String → Prop
  simple : ∀ {ty}, ty.element? = none → proper ty
  array : ∀ {elem}, elem ≠ .null → proper elem → proper (.array elem)
  element : ∀ {elem}, proper (.array elem) → proper elem
  param : ∀ {m : Member}, m ∈ ctx.table.members → ∀ ty ∈ m.params, proper ty
  valueType : ∀ {m : Member}, m ∈ ctx.table.members → proper m.valueType
  result : proper ctx.result

namespace Vocabulary

variable {ctx : Context}

/-- A type of values. -/
def Value (v : Vocabulary ctx) (ty : JType) : Prop :=
  ty.isVoid = false ∧ v.proper ty

/-- The member is found, may be accessed, and is named by an opcode that fits
it.  An initializer may also be called as a method, by its name. -/
structure Names (v : Vocabulary ctx) (code : Opcode) (m : Member) : Prop where
  found : ctx.table.Finds m
  accessible : ctx.table.isAccessible .self m.owner m.access = true
  fits : code ∈ m.opcodes ∨ (m.isInitializer = true ∧ v.called m.name ∧ code ∈ m.callOpcodes)

/-- The forms of the instructions that generation writes. -/
inductive Writes (v : Vocabulary ctx) : Instr → Prop where
  | op (code : Opcode) : Writes v (.op code)
  | constant (literal : Literal) : Writes v (Gen.constantInstr literal)
  | newarray (p : Primitive) : Writes v (.int .newarray p.arrayCode)
  | type (code : Opcode) {ty : JType} : ty.isReference = true → ty ≠ .null → v.proper ty →
      Writes v (.type code ty)
  | load {ty : JType} (slot : Slot) : ty.isVoid = false → Writes v (.var (.loadOf ty) slot)
  | store {ty : JType} (slot : Slot) : ty.isVoid = false → Writes v (.var (.storeOf ty) slot)
  | jump (code : Opcode) (target : Label) : Writes v (.jump code target)
  | label (position : Label) : Writes v (.label position)
  | box (p : Primitive) : Writes v (Conversion.boxInstr p)
  | unbox (p : Primitive) : Writes v (Conversion.unboxInstr p)
  | member {code : Opcode} {m : Member} : v.Names code m → Writes v (.member code m.ref)

/-- Frame, memory of probes and instructions keep to the vocabulary. -/
structure Formed (v : Vocabulary ctx) (s : State) : Prop where
  frame : s.frame.Typed v.Value
  probed : ∀ (pos : Position) ty, s.probed[pos]? = some ty → v.Value ty
  instrs : ∀ instr ∈ s.code, v.Writes instr

end Vocabulary

/-! ## Conversions -/

namespace Conversion

theorem checkTarget?_ofPrimitives (narrow : Bool) (p q : Primitive) (target : JType) :
    (ofPrimitives narrow p q).checkTarget? target = none := by
  unfold ofPrimitives
  repeat' split
  all_goals rfl

theorem checkTarget?_ofUnboxing {table : MemberTable} {source : JType} {q : Primitive} {ty : JType}
    (checks : (ofUnboxing table source q).checkTarget? (.primitive q) = some ty) :
    ty = .wrapperOf q := by
  unfold ofUnboxing at checks
  dsimp only at checks
  repeat' split at checks
  all_goals simp_all [checkTarget?, JType.asPrimitive?]

/-- A value is checked for the type it is converted to or for a wrapper. -/
theorem of_checkTarget? {table : MemberTable} {narrow : Bool} {source target ty : JType}
    (checks : (classify table narrow source target).checkTarget? target = some ty) :
    ty.isReference = true ∧ ty ≠ .null ∧ (ty = target ∨ ty.element? = none) := by
  unfold classify at checks
  split at checks
  · contradiction
  · split at checks
    · contradiction
    · rename_i proper
      cases target with
      | primitive q =>
          cases source with
          | primitive p =>
              rw [checkTarget?_ofPrimitives] at checks
              contradiction
          | null => contradiction
          | _ =>
              obtain rfl := checkTarget?_ofUnboxing checks
              exact ⟨rfl, by simp [JType.wrapperOf], .inr rfl⟩
      | void | null => simp [JType.isVoid] at proper
      | _ =>
          cases source <;> dsimp only at checks <;> repeat' split at checks
          all_goals cases checks <;> simp [JType.isReference]

end Conversion

namespace Vocabulary

variable {ctx : Context} {v : Vocabulary ctx}

theorem writes_part {conversion : Conversion} {target : JType} {instr : Instr}
    (checks : ∀ ty, conversion.checkTarget? target = some ty →
      ty.isReference = true ∧ ty ≠ .null ∧ v.proper ty)
    (part : conversion.Part target instr) : v.Writes instr := by
  cases part with
  | step => exact .op _
  | box p => exact .box p
  | unbox p => exact .unbox p
  | check isTarget =>
      obtain ⟨reference, notNull, proper⟩ := checks _ isTarget
      exact .type .checkcast reference notNull proper

/-- A conversion to a type of the vocabulary keeps to it. -/
theorem writes_classify {target : JType} (proper : v.proper target) (source : JType) :
    ∀ instr ∈ (Gen.conversion ctx source target).instrs source target, v.Writes instr := by
  refine fun instr mem => writes_part (fun ty checks => ?_) (Conversion.part_of_mem_instrs mem)
  obtain ⟨reference, notNull, same | simple⟩ := Conversion.of_checkTarget? checks
  · exact ⟨reference, notNull, same ▸ proper⟩
  · exact ⟨reference, notNull, v.simple simple⟩

end Vocabulary

end JvmAssembler
