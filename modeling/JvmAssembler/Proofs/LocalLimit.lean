import Mathlib
import JvmAssembler.Proofs.StackSoundness
import JvmAssembler.Proofs.Steps

/-!
# The limit on local variables

The number of local slots of a method is the greatest end of a variable that was
written, cut to 16 bits.  It bounds what instructions access, with two
exceptions.  An end beyond 16 bits is not counted.  And a slot that is referred
to by number may be the second one of a wide variable: its recorded type is that
of the variable, so that it is accessed as if the variable began there.

Main statement: a load or store ends within the limit exactly if its end fits 16
bits, unless it goes through the number of such a slot.
-/

namespace JvmAssembler

/-- Number of slots that a load or store accesses. -/
def Opcode.varWidth (code : Opcode) : Nat :=
  if code = iload + 1 ∨ code = iload + 3 ∨ code = istore + 1 ∨ code = istore + 3 then 2 else 1

theorem Opcode.varWidth_loadOf {ty : JType} (value : ty.isVoid = false) :
    (loadOf ty).varWidth = ty.width := by
  cases ty with
  | primitive p => cases p <;> decide
  | void => contradiction
  | _ => rfl

theorem Opcode.varWidth_storeOf {ty : JType} (value : ty.isVoid = false) :
    (storeOf ty).varWidth = ty.width := by
  cases ty with
  | primitive p => cases p <;> decide
  | void => contradiction
  | _ => rfl

namespace Frame

/-! ## The limit as a bound -/

variable {index : Nat} {ty : JType}

/-- The limit counts this end, unless it does not fit 16 bits. -/
def Counts (limit n : Nat) : Prop :=
  n ≤ limit ∨ 65535 < n

theorem Counts.mono {limit limit' n : Nat} (counts : Counts limit n) (more : limit ≤ limit') :
    Counts limit' n :=
  counts.imp_left fun below => below.trans more

/-- A variable in a slot ends where the limit counts, or the slot is the second
one of a wide variable and has no name. -/
def SlotCounts (limit : Nat) (locals : LocalTable) (i : Nat) (ty : JType) : Prop :=
  Counts limit (i + ty.width) ∨ (ty.width = 2 ∧ nameIn? locals i = none ∧ Counts limit (i + 1))

/-- Every variable of the table is counted. -/
structure Counted (f : Frame) : Prop where
  matched : f.locals.Matched
  limit_le : f.maxLocals ≤ 65535
  value : ∀ i ty, typeIn? f.locals i = some ty → ty.isVoid = false
  counts : ∀ i ty, typeIn? f.locals i = some ty → SlotCounts f.maxLocals f.locals i ty
  named_le : ∀ i, (nameIn? f.locals i).isSome → i ≤ 65535

/-- A later frame with counted variables and a limit that is not smaller. -/
structure CountsOn (f g : Frame) : Prop where
  counted : g.Counted
  limit_le : f.maxLocals ≤ g.maxLocals

variable {f g : Frame}

theorem Counted.of_same (counted : f.Counted) (limit : g.maxLocals = f.maxLocals)
    (locals : g.locals = f.locals) : CountsOn f g where
  counted :=
    { matched := locals ▸ counted.matched
      limit_le := limit ▸ counted.limit_le
      value := locals ▸ counted.value
      counts := by
        rw [limit, locals]
        exact counted.counts
      named_le := locals ▸ counted.named_le }
  limit_le := limit.ge

theorem Counted.take (counted : f.Counted) (start : Nat) (scopes : List Nat) :
    CountsOn f { f with scopes, locals := f.locals.take start } where
  counted :=
    { matched := counted.matched.take start
      limit_le := counted.limit_le
      value := fun i ty typed => by
        rw [typeIn?_take, Option.ite_none_right_eq_some] at typed
        exact counted.value i ty typed.2
      counts := fun i ty typed => by
        rw [typeIn?_take, Option.ite_none_right_eq_some] at typed
        rw [SlotCounts, nameIn?_take, if_pos typed.1]
        exact counted.counts i ty typed.2
      named_le := fun i named => by
        rw [nameIn?_take] at named
        split at named
        · exact counted.named_le i named
        · contradiction }
  limit_le := le_rfl

theorem Counted.writeSlots (counted : f.Counted) (value : ty.isVoid = false) (index : Nat) :
    CountsOn f (f.writeSlots index ty) ∧
      Counts (f.writeSlots index ty).maxLocals (index + ty.width) := by
  have more : f.maxLocals ≤ (f.writeSlots index ty).maxLocals := Nat.le_max_left _ _
  have ends : Counts (f.writeSlots index ty).maxLocals (index + ty.width) := by
    by_cases fits : 65535 < index + ty.width
    · exact .inr fits
    · have same : (index + ty.width) % 65536 = index + ty.width := Nat.mod_eq_of_lt (by omega)
      refine .inl (le_trans ?_ (Nat.le_max_right f.maxLocals ((index + ty.width) % 65536)))
      rw [same]
  refine ⟨⟨⟨counted.matched.written index ty, ?_, ?_, ?_, ?_⟩, more⟩, ends⟩
  · have := counted.limit_le
    have := Nat.mod_lt (index + ty.width) (show 0 < 65536 by decide)
    simp only [Frame.writeSlots]
    omega
  · intro i held typed
    rcases typeIn?_of_written value typed with ⟨rfl, -⟩ | old
    · exact value
    · exact counted.value i held old
  · intro i held typed
    have name := nameIn?_written counted.matched index ty i
    rcases typeIn?_of_written value typed with ⟨rfl, rfl | second⟩ | old
    · exact .inl ends
    · refine .inr ⟨second.2, by rw [Frame.writeSlots, name, if_pos second], ?_⟩
      rwa [second.2, ← Nat.add_assoc index 1 1, ← second.1] at ends
    · rcases counted.counts i held old with counts | ⟨wide, unnamed, counts⟩
      · exact .inl (counts.mono more)
      · exact .inr ⟨wide, by simp [Frame.writeSlots, name, unnamed], counts.mono more⟩
  · intro i named
    rw [Frame.writeSlots, nameIn?_written counted.matched] at named
    split at named
    · contradiction
    · exact counted.named_le i named

theorem Counted.setLocal {slot : Slot} (counted : f.Counted)
    (run : setLocal slot ty f = .ok () g) :
    CountsOn f g ∧ ty.isVoid = false ∧ Counts g.maxLocals (slot.toNat + ty.width) := by
  obtain ⟨storable, rfl⟩ := setLocal_eq_ok.mp run
  obtain ⟨on, ends⟩ := counted.writeSlots storable.value slot.toNat
  exact ⟨on, storable.value, ends⟩

/-- The slot at the end of the table is the first one of the variable. -/
theorem Counted.addLocal {name : Option String} {slot : Slot} (counted : f.Counted)
    (run : addLocal name ty f = .ok slot g) :
    CountsOn f g ∧ ty.isVoid = false ∧ Counts g.maxLocals (slot.toNat + ty.width) := by
  obtain ⟨few, storable, rfl, rfl⟩ := addLocal_eq_ok.mp run
  have value := storable.value
  have same : f.localCount.toUInt16.toNat = f.locals.size := by
    rw [Nat.toUInt16, UInt16.toNat_ofNat', Nat.mod_eq_of_lt (by omega), localCount]
  obtain ⟨⟨on, more⟩, ends⟩ := counted.writeSlots value f.locals.size
  rw [same]
  refine ⟨⟨⟨on.matched.renamed _ name, on.limit_le, on.value, ?_, ?_⟩, more⟩, value, ends⟩
  · intro i held typed
    by_cases isEnd : i = f.locals.size
    · rcases typeIn?_of_written value typed with ⟨rfl, -⟩ | outside
      · exact .inl (isEnd ▸ ends)
      · have inside : i < f.locals.size := lt_size_of_typeIn? (by simp [outside])
        omega
    · rcases on.counts i held typed with counts | ⟨wide, unnamed, counts⟩
      · exact .inl counts
      · refine .inr ⟨wide, ?_, counts⟩
        rwa [added, nameIn?_renamed isEnd]
  · intro i named
    by_cases isEnd : i = f.locals.size
    · exact isEnd ▸ few
    · rw [added, nameIn?_renamed isEnd] at named
      exact on.named_le i named

/-! ## Slots by name -/

/-- What a slot's number and recorded type say about the limit; `byNumber` tells
whether the slot was found by its number. -/
def AccountsFor (limit : Nat) (byNumber : Prop) (slot : Slot) (width : Nat) : Prop :=
  Counts limit (slot.toNat + width) ∨ (width = 2 ∧ byNumber ∧ slot.toNat + 1 ≤ limit)

theorem AccountsFor.mono {limit limit' : Nat} {byNumber : Prop} {slot : Slot} {width : Nat}
    (accounted : AccountsFor limit byNumber slot width) (more : limit ≤ limit') :
    AccountsFor limit' byNumber slot width :=
  accounted.imp (·.mono more) fun ⟨wide, number, below⟩ => ⟨wide, number, below.trans more⟩

theorem Counted.slotType? {slot : Slot} (counted : f.Counted)
    (typed : f.slotType? slot.toNat = some ty) :
    ty.isVoid = false ∧ AccountsFor f.maxLocals True slot ty.width := by
  refine ⟨counted.value _ ty typed, ?_⟩
  rcases counted.counts _ ty typed with ends | ⟨wide, -, below | beyond⟩
  · exact .inl ends
  · exact .inr ⟨wide, trivial, below⟩
  · exact .inl (.inr (by omega))

theorem Counted.named {name : String} (counted : f.Counted)
    (found : indexIn? f.locals name = some index)
    (typed : f.slotType? index.toUInt16.toNat = some ty) :
    AccountsFor f.maxLocals False index.toUInt16 ty.width := by
  have named := (indexIn?_eq_some_iff.mp found).1
  have small := counted.named_le index (by simp [named])
  have same : index.toUInt16.toNat = index := by
    rw [Nat.toUInt16, UInt16.toNat_ofNat', Nat.mod_eq_of_lt (by omega)]
  rw [same] at typed
  rcases counted.counts index ty typed with ends | ⟨-, unnamed, -⟩
  · exact .inl (same.symm ▸ ends)
  · rw [named] at unnamed
    contradiction

end Frame

/-! ## Actions -/

/-- Variables are counted, and so is what the instructions written so far
access, where `refs` are the references to local variables. -/
structure State.Housed (ctx : Context) (refs : List LocalRef) (s : State) : Prop where
  counted : s.frame.Counted
  receiver : ctx.isStatic = false → 1 ≤ s.frame.maxLocals
  vars : ∀ code slot, .var code slot ∈ s.code →
    Frame.AccountsFor s.frame.maxLocals (.slot slot ∈ refs) slot code.varWidth

open JvmAssembler.Frame (Counts CountsOn AccountsFor)

namespace Gen

variable {α β : Type} {ctx : Context} {refs : List LocalRef} {s t u : State}

/-- A housed state with a limit that is not smaller. -/
structure HousedOn (ctx : Context) (refs : List LocalRef) (s t : State) : Prop where
  housed : t.Housed ctx refs
  limit_le : s.frame.maxLocals ≤ t.frame.maxLocals

/-- The action keeps states housed. -/
def Houses (ctx : Context) (refs : List LocalRef) (x : Gen α) : Prop :=
  ∀ ⦃s a t⦄, x s = .ok a t → s.Housed ctx refs → HousedOn ctx refs s t

theorem HousedOn.trans (first : HousedOn ctx refs s t) (second : HousedOn ctx refs t u) :
    HousedOn ctx refs s u :=
  ⟨second.housed, first.limit_le.trans second.limit_le⟩

/-- More instructions are written; those that access variables are counted. -/
theorem HousedOn.of_written {code : List Instr} (housed : s.Housed ctx refs)
    (on : CountsOn s.frame t.frame) (codeEq : t.code = s.code ++ code)
    (vars : ∀ op slot, .var op slot ∈ code →
      AccountsFor t.frame.maxLocals (.slot slot ∈ refs) slot op.varWidth) :
    HousedOn ctx refs s t where
  housed :=
    { counted := on.counted
      receiver := fun notStatic => (housed.receiver notStatic).trans on.limit_le
      vars := by
        intro op slot mem
        rw [codeEq, List.mem_append] at mem
        rcases mem with old | new
        · exact (housed.vars op slot old).mono on.limit_le
        · exact vars op slot new }
  limit_le := on.limit_le

theorem HousedOn.of_same (housed : s.Housed ctx refs) (on : CountsOn s.frame t.frame)
    (code : t.code = s.code) : HousedOn ctx refs s t :=
  .of_written housed on (by rw [code, List.append_nil]) (by simp)

theorem HousedOn.of_same_locals (housed : s.Housed ctx refs)
    (locals : t.frame.locals = s.frame.locals) (limit : t.frame.maxLocals = s.frame.maxLocals)
    (code : t.code = s.code) : HousedOn ctx refs s t :=
  .of_same housed (housed.counted.of_same limit locals) code

namespace Houses

theorem pure (a : α) : Houses ctx refs (pure a : Gen α) := by
  intro s b t run housed
  obtain ⟨-, rfl⟩ := pure_eq_ok.mp run
  exact ⟨housed, le_rfl⟩

theorem throw (e : Error) : Houses ctx refs (throw e : Gen α) :=
  fun _ _ _ run => (throw_eq_ok.mp run).elim

theorem seq {x : Gen α} {f : α → Gen β} (first : Houses ctx refs x)
    (second : ∀ a, Returns x a → Houses ctx refs (f a)) : Houses ctx refs (x >>= f) := by
  intro s b t run housed
  obtain ⟨a, u, ran, rest⟩ := bind_eq_ok.mp run
  have on := first ran housed
  exact on.trans (second a ⟨s, u, ran⟩ rest on.housed)

theorem bind {x : Gen α} {f : α → Gen β} (first : Houses ctx refs x)
    (second : ∀ a, Houses ctx refs (f a)) : Houses ctx refs (x >>= f) :=
  seq first fun a _ => second a

theorem ite {condition : Prop} [Decidable condition] {x y : Gen α} (first : Houses ctx refs x)
    (second : Houses ctx refs y) : Houses ctx refs (if condition then x else y) := by
  split
  · exact first
  · exact second

theorem whenAlive {x : Gen Unit} (houses : Houses ctx refs x) :
    Houses ctx refs (whenAlive x) := by
  intro s a t run housed
  rcases whenAlive_eq_ok.mp run with ⟨-, ran⟩ | ⟨-, rfl⟩
  · exact houses ran housed
  · exact ⟨housed, le_rfl⟩

theorem onFrame {op : FrameOp α} (noLocals : Frame.Local op) : Houses ctx refs (onFrame op) := by
  intro s a t run housed
  obtain ⟨frame, ran, rfl⟩ := onFrame_eq_ok.mp run
  exact .of_same_locals housed (noLocals.locals ran) (noLocals.maxLocals ran) rfl

theorem write {instr : Instr} (noVar : instr.isVar = false) :
    Houses ctx refs (write ctx instr) := by
  intro s a t run housed
  have emits := write_emits run
  cases run
  refine .of_written housed (housed.counted.of_same rfl rfl) emits.instrs_eq ?_
  intro op slot mem
  obtain rfl := List.mem_singleton.mp mem
  contradiction

theorem emit {instr : Instr} (noVar : instr.isVar = false) : Houses ctx refs (emit ctx instr) := by
  refine bind (write noVar) fun _ => ?_
  cases instr with
  | op code => exact ite (onFrame .markDead) (pure ())
  | _ => exact pure ()

theorem jump (code : Opcode) (target : Label) : Houses ctx refs (jump ctx code target) :=
  bind (onFrame (.jumpTo target)) fun _ => bind (write rfl) fun _ =>
    ite (onFrame .markDead) (pure ())

theorem place (label : Label) : Houses ctx refs (place ctx label) :=
  bind (onFrame (.place label)) fun _ => write rfl

/-- A load or store that is counted. -/
theorem emitVar {code : Opcode} {slot : Slot}
    (accounted : AccountsFor s.frame.maxLocals (.slot slot ∈ refs) slot code.varWidth)
    (run : Gen.emit ctx (.var code slot) s = .ok () t) (housed : s.Housed ctx refs) :
    HousedOn ctx refs s t := by
  have emits := emit_emits rfl run
  cases run
  refine .of_written housed (housed.counted.of_same rfl rfl) emits.instrs_eq ?_
  intro op slot' mem
  obtain ⟨rfl, rfl⟩ := Instr.var.inj (List.mem_singleton.mp mem)
  exact accounted

theorem inScope {x : Gen Unit} (houses : Houses ctx refs x) : Houses ctx refs (inScope x) := by
  intro s a t run housed
  obtain ⟨u, start, rest, ran, -, rfl⟩ := inScope_eq_ok.mp run
  have entering : HousedOn ctx refs s s.entered := .of_same_locals housed rfl rfl rfl
  have on := houses ran entering.housed
  exact (entering.trans on).trans (.of_same on.housed (on.housed.counted.take start rest) rfl)

theorem operation {x : Gen Unit} (name : String) (houses : Houses ctx refs x) :
    Houses ctx refs (operation name x) := by
  intro s a t run housed
  obtain ⟨-, u, ran, rfl⟩ := operation_eq_ok.mp run
  have entering : HousedOn ctx refs s { s with depth := s.depth + 1 } :=
    .of_same_locals housed rfl rfl rfl
  have on := houses ran entering.housed
  exact (entering.trans on).trans (.of_same_locals on.housed rfl rfl rfl)

theorem probe (operand : Operand) : Houses ctx refs (probe ctx operand) := by
  intro s a t run housed
  obtain ⟨frame, output, -⟩ := probe_ok run
  exact .of_same_locals housed (by rw [frame]) (by rw [frame]) (by simp [State.code, output])

end Houses

/-! ## Local variables -/

/-- The slot of a reference and its recorded type are counted. -/
theorem accountsFor_of_slotOf {ref : LocalRef} {slot : Slot} {ty : JType} (mem : ref ∈ refs)
    (counted : s.frame.Counted) (found : slotOf ref s = .ok slot t)
    (typed : onFrame (Frame.localType slot) t = .ok ty u) :
    s = u ∧ ty.isVoid = false ∧
      AccountsFor s.frame.maxLocals (.slot slot ∈ refs) slot ty.width := by
  obtain ⟨isTy, rfl⟩ := localType_eq_ok.mp typed
  cases ref with
  | named name =>
      obtain ⟨⟨index, isLast, rfl⟩, rfl⟩ := resolveIndex_eq_ok.mp found
      refine ⟨rfl, (counted.slotType? isTy).1, ?_⟩
      exact (counted.named isLast isTy).imp_right fun contra => contra.2.1.elim
  | slot index =>
      obtain ⟨rfl, rfl⟩ := pure_eq_ok.mp found
      obtain ⟨value, accounted⟩ := counted.slotType? isTy
      exact ⟨rfl, value, accounted.imp_right fun ⟨wide, _, below⟩ => ⟨wide, mem, below⟩⟩

/-- A slot to store to is counted for the type it was declared with, if there is one. -/
theorem accountsFor_of_storeTarget {target : LocalRef} {slot : Slot} {declared : Option JType}
    (mem : target ∈ refs) (counted : s.frame.Counted)
    (found : storeTarget target s = .ok (slot, declared) t) :
    s = t ∧ ∀ ty, declared = some ty → ty.isVoid = false ∧
      AccountsFor s.frame.maxLocals (.slot slot ∈ refs) slot ty.width := by
  cases target with
  | named name =>
      obtain ⟨slot', u, resolved, run⟩ := bind_eq_ok.mp found
      obtain ⟨ty, v, typed, returned⟩ := bind_eq_ok.mp run
      obtain ⟨pair, rfl⟩ := pure_eq_ok.mp returned
      obtain ⟨rfl, rfl⟩ := Prod.mk.inj pair
      obtain ⟨rfl, value, accounted⟩ := accountsFor_of_slotOf mem counted resolved typed
      refine ⟨rfl, ?_⟩
      rintro _ ⟨⟩
      exact ⟨value, accounted⟩
  | slot index =>
      cases found
      refine ⟨rfl, fun ty typed => ?_⟩
      obtain ⟨value, accounted⟩ := counted.slotType? typed
      exact ⟨value, accounted.imp_right fun ⟨wide, _, below⟩ => ⟨wide, mem, below⟩⟩

/-- Actions whose fragments keep states housed and which refer to variables by
`refs` only. -/
def housing (ctx : Context) (refs : List LocalRef) : Plan where
  part _ _ x _ := Houses ctx refs x
  operand _ _ := True
  may
    | .touches => False
    | .refers ref => ref ∈ refs
    | _ => True

namespace Houses

theorem loadSlot {slot : Slot} {ty : JType} (value : ty.isVoid = false)
    (accounted : AccountsFor s.frame.maxLocals (.slot slot ∈ refs) slot ty.width)
    (run : Gen.loadSlot ctx slot ty s = .ok () t) (housed : s.Housed ctx refs) :
    HousedOn ctx refs s t := by
  obtain ⟨_, u, emitted, pushed⟩ := bind_eq_ok.mp run
  rw [← Opcode.varWidth_loadOf value] at accounted
  have on := emitVar accounted emitted housed
  exact on.trans (onFrame (.push ty) pushed on.housed)

/-- The type on top is that of the variable. -/
theorem storeSlot {slot : Slot} {ty : JType} {rest : List JType} (value : ty.isVoid = false)
    (stack : s.frame.stack = ty :: rest)
    (accounted : AccountsFor s.frame.maxLocals (.slot slot ∈ refs) slot ty.width)
    (run : Gen.storeSlot ctx slot s = .ok () t) (housed : s.Housed ctx refs) :
    HousedOn ctx refs s t := by
  obtain ⟨top, u, popped, emitted⟩ := bind_eq_ok.mp run
  obtain ⟨rest', stack', -⟩ := pop_emits popped
  obtain ⟨rfl, -⟩ := List.cons.inj (stack.symm.trans stack')
  have on := onFrame .pop popped housed
  rw [← Opcode.varWidth_storeOf value] at accounted
  exact on.trans (emitVar (accounted.mono on.limit_le) emitted on.housed)

theorem load {ref : LocalRef} (mem : ref ∈ refs) : Houses ctx refs (load ctx ref) := by
  intro s a t run housed
  obtain ⟨slot, u, found, run⟩ := bind_eq_ok.mp run
  obtain ⟨ty, v, typed, run⟩ := bind_eq_ok.mp run
  obtain ⟨rfl, value, accounted⟩ := accountsFor_of_slotOf mem housed.counted found typed
  exact loadSlot value accounted run housed

theorem emitAll {code : List Instr} (noVar : ∀ instr ∈ code, instr.isVar = false) :
    Houses ctx refs (emitAll ctx code) := by
  induction code with
  | nil => exact pure ()
  | cons instr rest ih =>
      exact bind (emit (noVar instr (by simp))) fun _ =>
        ih fun other mem => noVar other (by simp [mem])

theorem convertTop (source target : JType) :
    Houses ctx refs (convertTop ctx source target (conversion ctx source target)) := by
  rw [convertTop_conversion]
  exact ite (pure ()) (ite (throw _) (bind (emitAll (Conversion.instrs_noVar _ source target))
    fun _ => onFrame (.replaceTop target)))

theorem coerceTop (target : JType) : Houses ctx refs (coerceTop ctx target) :=
  bind (onFrame .peek) fun source => ite (convertTop source target) (throw _)

theorem castTop (target : JType) : Houses ctx refs (castTop ctx target) := by
  rw [castTop_eq]
  exact bind (onFrame .peek) fun source => convertTop source target

theorem constant (literal : Literal) : Houses ctx refs (constant ctx literal) :=
  bind (emit (constantInstr_noVar literal)) fun _ => onFrame (.push _)

theorem value {x : Gen Unit} (houses : Houses ctx refs x) : Houses ctx refs (value x) :=
  fun _ _ _ run => houses (value_eq_ok.mp run).1

theorem store {target : LocalRef} {x : Gen Unit} (mem : target ∈ refs)
    (houses : Houses ctx refs x) : Houses ctx refs (store ctx target x) := by
  intro s a t run housed
  obtain ⟨⟨slot, declared⟩, u, found, run⟩ := bind_eq_ok.mp run
  obtain ⟨rfl, accounted⟩ := accountsFor_of_storeTarget mem housed.counted found
  obtain ⟨ty, u, valued, run⟩ := bind_eq_ok.mp run
  have on := value houses valued housed
  cases declared with
  | some declared =>
      obtain ⟨_, v, coerced, stored⟩ := bind_eq_ok.mp run
      obtain ⟨source, rest, -, -, emits⟩ := coerceTop_emits coerced
      obtain ⟨notVoid, accounted⟩ := accounted declared rfl
      have on := on.trans (coerceTop declared coerced on.housed)
      exact on.trans
        (storeSlot notVoid emits.stack_eq (accounted.mono on.limit_le) stored on.housed)
  | none =>
      obtain ⟨_, v, written, stored⟩ := bind_eq_ok.mp run
      obtain ⟨frame, ran, rfl⟩ := onFrame_eq_ok.mp written
      obtain ⟨-, rest, stack, -⟩ := value_eq_ok.mp valued
      obtain ⟨counts, notVoid, ends⟩ := on.housed.counted.setLocal ran
      have stack' : frame.stack = ty :: rest := (setLocal_keeps ran).1.trans stack
      have on : HousedOn ctx refs s { u with frame } := on.trans (.of_same on.housed counts rfl)
      exact on.trans (storeSlot notVoid stack' (.inl ends) stored on.housed)

theorem declare {name : String} {ty : JType} {x : Gen Unit} (houses : Houses ctx refs x) :
    Houses ctx refs (declare ctx name ty x) := by
  intro s a t run housed
  obtain ⟨_, u, valued, run⟩ := bind_eq_ok.mp run
  obtain ⟨_, v, coerced, run⟩ := bind_eq_ok.mp run
  obtain ⟨slot, w, added, stored⟩ := bind_eq_ok.mp run
  have on := value houses valued housed
  have on := on.trans (coerceTop ty coerced on.housed)
  obtain ⟨source, rest, -, -, emits⟩ := coerceTop_emits coerced
  obtain ⟨frame, ran, rfl⟩ := onFrame_eq_ok.mp added
  obtain ⟨counts, notVoid, ends⟩ := on.housed.counted.addLocal ran
  have stack : frame.stack = ty :: rest := (addLocal_keeps ran).1.trans emits.stack_eq
  have on : HousedOn ctx refs s { v with frame } := on.trans (.of_same on.housed counts rfl)
  exact on.trans (storeSlot notVoid stack (.inl ends) stored on.housed)

theorem addLocal (name : Option String) (ty : JType) :
    Houses ctx refs (Gen.onFrame (Frame.addLocal name ty)) := by
  intro s a t run housed
  obtain ⟨frame, ran, rfl⟩ := onFrame_eq_ok.mp run
  exact .of_same housed (housed.counted.addLocal ran).1 rfl

theorem increment {target : LocalRef} (mem : target ∈ refs) (step : Int32) :
    Houses ctx refs (increment ctx target step) := by
  intro s a t run housed
  obtain ⟨slot, u, found, run⟩ := bind_eq_ok.mp run
  obtain ⟨ty, v, typed, run⟩ := bind_eq_ok.mp run
  obtain ⟨rfl, notVoid, accounted⟩ := accountsFor_of_slotOf mem housed.counted found typed
  cases numeric : ty.asPrimitive?.filter Primitive.isNumeric with
  | none =>
      simp only [numeric] at run
      exact (throw_eq_ok.mp run).elim
  | some p =>
      simp only [numeric] at run
      obtain ⟨_, s₁, loaded, run⟩ := bind_eq_ok.mp run
      obtain ⟨_, s₂, pushed, run⟩ := bind_eq_ok.mp run
      obtain ⟨_, s₃, popped, run⟩ := bind_eq_ok.mp run
      obtain ⟨_, s₄, added, run⟩ := bind_eq_ok.mp run
      obtain ⟨_, s₅, summed, run⟩ := bind_eq_ok.mp run
      obtain ⟨_, s₆, casted, stored⟩ := bind_eq_ok.mp run
      obtain ⟨source, rest, -, -, emits⟩ := castTop_emits casted
      have on := loadSlot notVoid accounted loaded housed
      have on := on.trans (constant _ pushed on.housed)
      have on := on.trans (onFrame (.popN 2) popped on.housed)
      have on := on.trans (emit rfl added on.housed)
      have on := on.trans (onFrame (.push _) summed on.housed)
      have on := on.trans (castTop ty casted on.housed)
      exact on.trans
        (storeSlot notVoid emits.stack_eq (accounted.mono on.limit_le) stored on.housed)

end Houses

theorem Houses.of_made {x x' : Gen α} {ctx' : Context} {live : Bool}
    (made : Made ctx ctx' (housing ctx refs) live x x') : Houses ctx refs x := by
  induction made with
  | pure a => exact .pure a
  | throw e => exact .throw e
  | seq _ _ _ first second => exact first.seq second
  | whenAlive _ houses => exact .whenAlive houses
  | onFrame _ noLocals => exact .onFrame noLocals
  | onLocals touches _ | emitVar code slot touches => exact touches.elim
  | emit _ noVar => exact .emit noVar
  | finish _ _ _ => exact .emit rfl
  | receiver notStatic =>
      intro s a t run housed
      have begins : AccountsFor s.frame.maxLocals (.slot 0 ∈ refs) 0 Opcode.aload.varWidth :=
        .inl (.inl (housed.receiver notStatic))
      exact Houses.emitVar begins run housed
  | newLabel =>
      intro s a t run housed
      obtain ⟨-, rfl⟩ := newLabel_eq_ok.mp run
      exact .of_same_locals housed rfl rfl rfl
  | jump target _ => exact .jump _ target
  | place label _ => exact .place label
  | part houses | reached houses => exact houses
  | value houses => exact .value houses
  | inScope _ houses => exact .inScope houses
  | operation name houses => exact .operation name houses
  | probe _ => exact .probe _
  | load ref mem => exact .load mem
  | store target _ mem _ houses => exact .store mem houses
  | declare name ty _ houses => exact .declare houses
  | declareUninit name ty _ => exact (Houses.addLocal _ _).bind fun _ => .pure ()
  | increment target step _ mem => exact .increment mem step

/-- Binding parameters counts their slots. -/
theorem Houses.bindParams (params : List (String × JType)) :
    Houses ctx refs (bindParams params) := by
  induction params with
  | nil => exact .pure ()
  | cons param rest ih => exact (Houses.addLocal _ _).bind fun _ => ih

theorem Houses.close (spec : MethodSpec) : Houses ctx refs (close ctx spec) := by
  intro s a t run housed
  exact Houses.emit rfl (close_eq_ok run).2.2 housed

theorem housing_closed (stores : List (LocalRef × Fragment)) :
    (housing ctx refs).Closed ctx ctx refs stores where
  part := Houses.of_made
  operand _ _ _ _ := trivial
  ends := trivial
  places := trivial
  writes := trivial
  refers _ mem := mem
  stores _ _ _ := trivial

/-- The parameters of a method are counted, the receiver among them. -/
theorem housed_of_bindParams {log : Array LogLine} {bound : State} (spec : MethodSpec)
    (context : ctx.isStatic = spec.isStatic)
    (binds : bindParams spec.bindings { log } = .ok () bound) : bound.Housed ctx refs := by
  have start : State.Housed { ctx with isStatic := true } refs { log } :=
    { counted := ⟨rfl, by simp, by simp [Frame.typeIn?], by simp [Frame.typeIn?],
        by simp [Frame.nameIn?]⟩
      receiver := by simp
      vars := by simp [State.code] }
  obtain ⟨⟨counted, -, vars⟩, -⟩ := Houses.bindParams spec.bindings binds start
  refine ⟨counted, fun notStatic => ?_, vars⟩
  have isInstance : spec.bindings = ("this", .self) :: spec.params := by
    simp [MethodSpec.bindings, ← context, notStatic]
  rw [isInstance] at binds
  obtain ⟨slot, u, added, others⟩ := bind_eq_ok.mp binds
  have on := Houses.addLocal _ _ added start
  have first : 1 ≤ u.frame.maxLocals := by
    cases added
    exact (by decide : 1 ≤ (Frame.writeSlots {} 0 .self).maxLocals)
  exact first.trans (Houses.bindParams spec.params others on.housed).limit_le

/-- What the instructions of a method access is counted. -/
theorem method_housed {spec : MethodSpec} {limits : Limits} (context : ctx.isStatic = spec.isStatic)
    (run : method ctx spec {} = .ok limits t) :
    limits.maxLocals ≤ 65535 ∧ ∀ code slot, .var code slot ∈ t.code →
      AccountsFor limits.maxLocals (.slot slot ∈ localRefsIn spec.body) slot code.varWidth := by
  obtain ⟨log, bound, generated, closed, binds, generates, closes, outputEq, -, limitEq⟩ :=
    method_eq_ok run
  have ofBound : bound.Housed ctx (localRefsIn spec.body) :=
    housed_of_bindParams spec context binds
  have body : Houses ctx (localRefsIn spec.body) (spec.body.code ctx []) :=
    codeFrom_of_closed [] 0 spec.body (housing_closed _)
  have ofGenerated := (body generates ofBound).housed
  have ofClosed := (Houses.whenAlive (Houses.close spec) closes ofGenerated).housed
  rw [limitEq]
  refine ⟨ofClosed.counted.limit_le, fun code slot mem => ofClosed.vars code slot ?_⟩
  rwa [State.code, ← outputEq]

end Gen

/-- A load or store in an assembled method ends within the limit exactly if its
end fits 16 bits, unless it accesses a wide value by the number of the last slot
that is counted. -/
theorem MethodSpec.var_le_maxLocals_of_assemble (cls : ClassContext) (spec : MethodSpec)
    (method : AssembledMethod) (code : Opcode) (slot : Slot)
    (assembled : spec.assemble cls = .ok method) (mem : .var code slot ∈ method.instrs) :
    (slot.toNat + code.varWidth ≤ method.maxLocals ↔ slot.toNat + code.varWidth ≤ 65535) ∨
      (code.varWidth = 2 ∧ .slot slot ∈ localRefsIn spec.body ∧
        slot.toNat + 1 = method.maxLocals) := by
  obtain ⟨limits, s, ran, rfl⟩ := exists_method_of_assemble assembled
  obtain ⟨limit_le, accounted⟩ := Gen.method_housed rfl ran
  change (_ ≤ limits.maxLocals ↔ _) ∨ (_ ∧ _ ∧ _ = limits.maxLocals)
  rcases accounted code slot mem with (within | beyond) | ⟨wide, number, below⟩
  · exact .inl ⟨fun _ => by omega, fun _ => within⟩
  · exact .inl ⟨fun _ => by omega, fun _ => by omega⟩
  · rcases Nat.lt_or_eq_of_le below with more | last
    · exact .inl ⟨fun _ => by omega, fun _ => by omega⟩
    · exact .inr ⟨wide, number, last⟩

namespace Sample

open Fragment

/-- The sum of a wide parameter and what its second slot is taken for. -/
def secondSlot : MethodSpec where
  name := "f"
  access := .publicStatic
  params := [("v", .long)]
  result := .long
  body := loadNamed "v" ++ [.arith .add [.load (.slot 1)], .returnValue]

/-- The instructions and limits of `secondSlot`. -/
def secondSlotMethod : AssembledMethod :=
  secondSlot.assembled (classContext "Demo" {})
    [.var (.loadOf .long) 0, .var (.loadOf .long) 1, .op (.iadd + 1), .op (.returnOf .long)] ⟨4, 2⟩

theorem secondSlot_assemble :
    secondSlot.assemble (classContext "Demo" {}) = .ok secondSlotMethod := by
  decide +kernel

/-- The load by name is within the limit, the load by number need not be. -/
theorem secondSlot_var_le_maxLocals :
    secondSlot.assemble (classContext "Demo" {}) = .ok secondSlotMethod ∧
      ∀ slot ∈ [0, 1], .var (.loadOf .long) slot ∈ secondSlotMethod.instrs ∧
        ((slot.toNat + (Opcode.loadOf .long).varWidth ≤ secondSlotMethod.maxLocals ↔
            slot.toNat + (Opcode.loadOf .long).varWidth ≤ 65535) ∨
          ((Opcode.loadOf .long).varWidth = 2 ∧ .slot slot ∈ localRefsIn secondSlot.body ∧
            slot.toNat + 1 = secondSlotMethod.maxLocals)) := by
  have loads : ∀ slot ∈ [0, 1], .var (.loadOf .long) slot ∈ secondSlotMethod.instrs := by
    simp [secondSlotMethod, MethodSpec.assembled]
  refine ⟨secondSlot_assemble, fun slot mem => ⟨loads slot mem, ?_⟩⟩
  exact MethodSpec.var_le_maxLocals_of_assemble _ _ _ _ slot secondSlot_assemble (loads slot mem)

/-- The second load accesses slots 1 and 2, where the limit is 2. -/
theorem secondSlot_exceeds_maxLocals :
    secondSlot.assemble (classContext "Demo" {}) = .ok secondSlotMethod ∧
      .var (.loadOf .long) 1 ∈ secondSlotMethod.instrs ∧
      secondSlotMethod.maxLocals < (1 : Slot).toNat + (Opcode.loadOf .long).varWidth :=
  ⟨secondSlot_assemble, by decide, by decide⟩

end Sample

end JvmAssembler
