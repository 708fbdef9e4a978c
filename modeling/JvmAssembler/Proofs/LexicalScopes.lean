import Mathlib
import JvmAssembler.Proofs.LocalLimit
import JvmAssembler.Proofs.Probing

/-!
# Scopes are lexical

The variables of all open scopes share one table of slots, which is cut back
where a scope ends.  Names survive what happens in a scope because a new
variable goes behind the table and a store to a slot by its number changes a
slot without a type only.  Such a gap never stands right before a variable with
a name, so that a wide value in it takes no name away.

Main statement: after a fragment in a scope of its own, the table has the size it
had, and every name means what it meant.  There is an exception.  A store by
slot number looks at the slot before its value is generated; if the value gives
the slot a type, the store then writes over it, which can leave a gap before a
variable with a name.
-/

namespace JvmAssembler

namespace Frame

/-! ## Tables of slots -/

/-- Variables with a name are typed, with no gap right before them, and the table
does not end with a gap. -/
structure Orderly (locals : LocalTable) : Prop where
  matched : locals.Matched
  named_typed : ∀ i, (nameIn? locals i).isSome → (typeIn? locals i).isSome
  named_small : ∀ i, (nameIn? locals i).isSome → i ≤ 65535
  before_named : ∀ i, (nameIn? locals (i + 1)).isSome → (typeIn? locals i).isSome
  last_typed : ∀ i, locals.size = i + 1 → (typeIn? locals i).isSome

/-- The variables of the first table are in the second one. -/
structure Keeps (locals locals' : LocalTable) : Prop where
  matched : locals.Matched
  size_le : locals.size ≤ locals'.size
  name_eq : ∀ i < locals.size, nameIn? locals' i = nameIn? locals i
  type_eq : ∀ i, (nameIn? locals i).isSome → typeIn? locals' i = typeIn? locals i
  typed : ∀ i, (typeIn? locals i).isSome → (typeIn? locals' i).isSome

namespace Keeps

variable {first second third : LocalTable}

theorem refl {locals : LocalTable} (matched : locals.Matched) : Keeps locals locals :=
  ⟨matched, le_rfl, fun _ _ => rfl, fun _ _ => rfl, fun _ => id⟩

theorem trans (before : Keeps first second) (after : Keeps second third) : Keeps first third where
  matched := before.matched
  size_le := before.size_le.trans after.size_le
  name_eq i inside :=
    (after.name_eq i (inside.trans_le before.size_le)).trans (before.name_eq i inside)
  type_eq i named := by
    have named' : (nameIn? second i).isSome := by
      rwa [before.name_eq i (lt_size_of_nameIn? before.matched named)]
    exact (after.type_eq i named').trans (before.type_eq i named)
  typed i isTyped := after.typed i (before.typed i isTyped)

end Keeps

/-- A name for a slot behind the variables of the first table. -/
theorem Keeps.renamed {locals locals' : LocalTable} (keeps : Keeps locals locals')
    {index : Nat} (behind : locals.size ≤ index) (name : Option String) :
    Keeps locals (renamed locals' index name) where
  matched := keeps.matched
  size_le := keeps.size_le
  name_eq i inside := by
    rw [nameIn?_renamed (Nat.ne_of_lt (inside.trans_le behind)), keeps.name_eq i inside]
  type_eq i named := by rw [typeIn?_renamed, keeps.type_eq i named]
  typed i typed := by
    rw [typeIn?_renamed]
    exact keeps.typed i typed

/-! ## Orderly tables -/

namespace Orderly

variable {locals : LocalTable} {index : Nat} {ty : JType}

theorem empty : Orderly {} :=
  ⟨rfl, by simp [nameIn?], by simp [nameIn?], by simp [nameIn?], by simp [LocalTable.size]⟩

/-- No variable with a name follows a gap. -/
theorem nameIn?_after_gap (orderly : Orderly locals) (gap : typeIn? locals index = none) :
    nameIn? locals (index + 1) = none := by
  cases named : nameIn? locals (index + 1) with
  | none => rfl
  | some name => simpa [gap] using orderly.before_named index (by simp [named])

/-- A variable that is written into a gap takes no name away. -/
theorem nameIn?_written (orderly : Orderly locals) (gap : typeIn? locals index = none) (i : Nat) :
    nameIn? (written locals index ty) i = nameIn? locals i := by
  rw [Frame.nameIn?_written orderly.matched]
  split
  · rename_i second
    rw [second.1, orderly.nameIn?_after_gap gap]
  · rfl

theorem keeps_written (orderly : Orderly locals) (gap : typeIn? locals index = none)
    (value : ty.isVoid = false) : Keeps locals (written locals index ty) where
  matched := orderly.matched
  size_le := by
    rw [size_written]
    exact Nat.le_max_left _ _
  name_eq i _ := orderly.nameIn?_written gap i
  type_eq i named := by
    have typed := orderly.named_typed i named
    rw [typeIn?_written_of_gap gap value, if_neg]
    rintro (rfl | ⟨rfl, -⟩)
    · simp [gap] at typed
    · simp [orderly.nameIn?_after_gap gap] at named
  typed i typed := by
    rw [typeIn?_written_of_gap gap value]
    split
    · rfl
    · exact typed

theorem written (orderly : Orderly locals) (gap : typeIn? locals index = none)
    (value : ty.isVoid = false) : Orderly (written locals index ty) where
  matched := orderly.matched.written index ty
  named_typed i named := by
    rw [orderly.nameIn?_written gap] at named
    exact (orderly.keeps_written gap value).typed i (orderly.named_typed i named)
  named_small i named := by
    rw [orderly.nameIn?_written gap] at named
    exact orderly.named_small i named
  before_named i named := by
    rw [orderly.nameIn?_written gap] at named
    exact (orderly.keeps_written gap value).typed i (orderly.before_named i named)
  last_typed i last := by
    rw [size_written] at last
    by_cases grows : locals.size < index + ty.width
    · rw [typeIn?_written_of_gap gap value, if_pos]
      · rfl
      · have := JType.width_of_value value
        omega
    · exact (orderly.keeps_written gap value).typed i (orderly.last_typed i (by omega))

/-- A slot with a type and no gap before it is given a name. -/
theorem renamed (orderly : Orderly locals) (typed : (typeIn? locals index).isSome)
    (before : ∀ i, i + 1 = index → (typeIn? locals i).isSome) (small : index ≤ 65535)
    (name : Option String) : Orderly (renamed locals index name) where
  matched := orderly.matched.renamed index name
  named_typed i named := by
    rw [typeIn?_renamed]
    by_cases here : i = index
    · rwa [here]
    · rw [nameIn?_renamed here] at named
      exact orderly.named_typed i named
  named_small i named := by
    by_cases here : i = index
    · rwa [here]
    · rw [nameIn?_renamed here] at named
      exact orderly.named_small i named
  before_named i named := by
    rw [typeIn?_renamed]
    by_cases here : i + 1 = index
    · exact before i here
    · rw [nameIn?_renamed here] at named
      exact orderly.before_named i named
  last_typed i last := by
    rw [typeIn?_renamed]
    exact orderly.last_typed i last

/-- A variable behind the table. -/
theorem added (orderly : Orderly locals) (value : ty.isVoid = false)
    (small : locals.size ≤ 65535) (name : Option String) :
    Orderly (Frame.renamed (Frame.written locals locals.size ty) locals.size name) ∧
      Keeps locals (Frame.renamed (Frame.written locals locals.size ty) locals.size name) := by
  have gap : typeIn? locals locals.size = none := by simp [typeIn?, LocalTable.size]
  have keeps := orderly.keeps_written gap value
  refine ⟨(orderly.written gap value).renamed ?_ (fun i last => ?_) small name,
    keeps.renamed le_rfl name⟩
  · simp [typeIn?_written_of_gap gap value]
  · exact keeps.typed i (orderly.last_typed i last.symm)

end Orderly

section

variable {locals locals' : LocalTable}

theorem Keeps.size_take (keeps : Keeps locals locals') :
    (locals'.take locals.size).size = locals.size := by
  simp [keeps.size_le]

/-- Where a table is cut back, its variables are as they were. -/
theorem Keeps.take (keeps : Keeps locals locals') : Keeps locals (locals'.take locals.size) where
  matched := keeps.matched
  size_le := keeps.size_take.ge
  name_eq i inside := by rw [nameIn?_take, if_pos inside, keeps.name_eq i inside]
  type_eq i named := by
    rw [typeIn?_take, if_pos (lt_size_of_nameIn? keeps.matched named), keeps.type_eq i named]
  typed i typed := by
    rw [typeIn?_take, if_pos (lt_size_of_typeIn? typed)]
    exact keeps.typed i typed

theorem Orderly.take (orderly : Orderly locals) (inOrder : Orderly locals')
    (keeps : Keeps locals locals') : Orderly (locals'.take locals.size) := by
  have matched := inOrder.matched.take locals.size
  have inside {i : Nat} (named : (nameIn? (locals'.take locals.size) i).isSome) :
      i < locals.size := keeps.size_take ▸ lt_size_of_nameIn? matched named
  refine ⟨matched, fun i named => ?_, fun i named => ?_, fun i named => ?_, fun i last => ?_⟩
  · have within := inside named
    rw [nameIn?_take, if_pos within] at named
    rw [typeIn?_take, if_pos within]
    exact inOrder.named_typed i named
  · have within := inside named
    rw [nameIn?_take, if_pos within] at named
    exact inOrder.named_small i named
  · have within := inside named
    rw [nameIn?_take, if_pos within] at named
    rw [typeIn?_take, if_pos (by omega)]
    exact inOrder.before_named i named
  · rw [keeps.size_take] at last
    exact keeps.take.typed i (orderly.last_typed i last)

end

/-! ## What names mean -/

/-- The slot of a name and the type recorded for it. -/
def binding (f : Frame) (name : String) : Except Error (Slot × JType) :=
  match (do let slot ← resolveIndex name; return (slot, ← localType slot) : FrameOp _) f with
  | .ok found _ => .ok found
  | .error e _ => .error e

theorem binding_of_unnamed {f : Frame} {name : String}
    (unnamed : indexIn? f.locals name = none) :
    f.binding name = .error (.unresolvedLocal name) := by
  simp [binding, bind, EStateM.bind, resolveIndex, unnamed]

theorem Orderly.exists_binding {f : Frame} {name : String} {index : Nat}
    (orderly : Orderly f.locals) (found : indexIn? f.locals name = some index) :
    ∃ ty, typeIn? f.locals index = some ty ∧ f.binding name = .ok (index.toUInt16, ty) := by
  have isNamed : (nameIn? f.locals index).isSome := by simp [(indexIn?_eq_some_iff.mp found).1]
  obtain ⟨ty, typed⟩ := Option.isSome_iff_exists.mp (orderly.named_typed index isNamed)
  have same : index.toUInt16.toNat = index := by
    rw [Nat.toUInt16, UInt16.toNat_ofNat',
      Nat.mod_eq_of_lt (Nat.lt_succ_of_le (orderly.named_small index isNamed))]
  refine ⟨ty, typed, ?_⟩
  simp [binding, bind, EStateM.bind, pure, EStateM.pure, resolveIndex, found, localType, slotType?,
    same, typed]

/-- The same variables in a table of the same size give names the same
meaning. -/
theorem Keeps.binding_eq {f g : Frame} (keeps : Keeps f.locals g.locals)
    (orderly : Orderly f.locals) (orderly' : Orderly g.locals)
    (sizeEq : g.locals.size = f.locals.size) (name : String) : g.binding name = f.binding name := by
  have sameName (i : Nat) : nameIn? g.locals i = nameIn? f.locals i := by
    by_cases inside : i < f.locals.size
    · exact keeps.name_eq i inside
    · have unnamed {locals : LocalTable} (matched : locals.Matched)
          (size : locals.size = f.locals.size) : nameIn? locals i = none :=
        Option.not_isSome_iff_eq_none.mp fun named =>
          inside (size ▸ lt_size_of_nameIn? matched named)
      rw [unnamed orderly.matched rfl, unnamed orderly'.matched sizeEq]
  have found : indexIn? g.locals name = indexIn? f.locals name := indexIn?_congr sameName name
  cases last : indexIn? f.locals name with
  | none => rw [binding_of_unnamed last, binding_of_unnamed (found.trans last)]
  | some index =>
      obtain ⟨ty, typed, here⟩ := orderly.exists_binding last
      obtain ⟨ty', typed', there⟩ := orderly'.exists_binding (found.trans last)
      have kept := keeps.type_eq index (by simp [(indexIn?_eq_some_iff.mp last).1])
      rw [typed, typed'] at kept
      rw [here, there, Option.some.inj kept]

end Frame

open JvmAssembler.Frame (Orderly Keeps typeIn?)

/-! ## Actions -/

/-- A state with an orderly table that has the variables and the scopes of
another one. -/
structure State.KeepsVariables (s t : State) : Prop where
  orderly : Orderly t.frame.locals
  keeps : Keeps s.frame.locals t.frame.locals
  scopes_eq : t.frame.scopes = s.frame.scopes

theorem State.KeepsVariables.trans {s t u : State} (first : s.KeepsVariables t)
    (second : t.KeepsVariables u) : s.KeepsVariables u :=
  ⟨second.orderly, first.keeps.trans second.keeps, second.scopes_eq.trans first.scopes_eq⟩

theorem State.KeepsVariables.of_same {s t : State} (orderly : Orderly s.frame.locals)
    (locals : t.frame.locals = s.frame.locals) (scopes : t.frame.scopes = s.frame.scopes) :
    s.KeepsVariables t where
  orderly := locals ▸ orderly
  keeps := by
    rw [locals]
    exact .refl orderly.matched
  scopes_eq := scopes

namespace Gen

variable {α β : Type} {ctx : Context} {s t u : State}

/-- The action keeps the variables of an orderly table. -/
def Lexical (x : Gen α) : Prop :=
  ∀ ⦃s a t⦄, x s = .ok a t → Orderly s.frame.locals → s.KeepsVariables t

/-- The value of a fragment does not give the slot a type. -/
def LeavesGap (slot : Slot) (code : Gen Unit) : Prop :=
  ∀ ⦃s ty t⦄, value code s = .ok ty t → typeIn? s.frame.locals slot.toNat = none →
    typeIn? t.frame.locals slot.toNat = none

namespace Lexical

theorem pure (a : α) : Lexical (pure a : Gen α) := by
  intro s b t run orderly
  obtain ⟨-, rfl⟩ := pure_eq_ok.mp run
  exact .of_same orderly rfl rfl

theorem throw (e : Error) : Lexical (throw e : Gen α) :=
  fun _ _ _ run => (throw_eq_ok.mp run).elim

theorem seq {x : Gen α} {f : α → Gen β} (first : Lexical x)
    (second : ∀ a, Returns x a → Lexical (f a)) : Lexical (x >>= f) := by
  intro s b t run orderly
  obtain ⟨a, u, ran, rest⟩ := bind_eq_ok.mp run
  have kept := first ran orderly
  exact kept.trans (second a ⟨s, u, ran⟩ rest kept.orderly)

theorem bind {x : Gen α} {f : α → Gen β} (first : Lexical x) (second : ∀ a, Lexical (f a)) :
    Lexical (x >>= f) :=
  seq first fun a _ => second a

theorem ite {condition : Prop} [Decidable condition] {x y : Gen α} (first : Lexical x)
    (second : Lexical y) : Lexical (if condition then x else y) := by
  split
  · exact first
  · exact second

theorem whenAlive {x : Gen Unit} (lexical : Lexical x) : Lexical (whenAlive x) := by
  intro s a t run orderly
  rcases whenAlive_eq_ok.mp run with ⟨-, ran⟩ | ⟨-, rfl⟩
  · exact lexical ran orderly
  · exact .of_same orderly rfl rfl

theorem onFrame {op : FrameOp α} (noLocals : Frame.Local op) : Lexical (onFrame op) := by
  intro s a t run orderly
  obtain ⟨frame, ran, rfl⟩ := onFrame_eq_ok.mp run
  exact .of_same orderly (noLocals.locals ran) (noLocals.scopes ran)

theorem write (instr : Instr) : Lexical (write ctx instr) := by
  intro s a t run orderly
  cases run
  exact .of_same orderly rfl rfl

theorem emit (instr : Instr) : Lexical (emit ctx instr) := by
  refine bind (write instr) fun _ => ?_
  cases instr with
  | op code => exact ite (onFrame .markDead) (pure ())
  | _ => exact pure ()

theorem jump (code : Opcode) (target : Label) : Lexical (jump ctx code target) :=
  bind (onFrame (.jumpTo target)) fun _ => bind (write _) fun _ =>
    ite (onFrame .markDead) (pure ())

theorem place (label : Label) : Lexical (place ctx label) :=
  bind (onFrame (.place label)) fun _ => write _

theorem value {x : Gen Unit} (lexical : Lexical x) : Lexical (value x) :=
  fun _ _ _ run => lexical (value_eq_ok.mp run).1

theorem operation {x : Gen Unit} (name : String) (lexical : Lexical x) :
    Lexical (operation name x) := by
  intro s a t run orderly
  obtain ⟨-, u, ran, rfl⟩ := operation_eq_ok.mp run
  have kept := lexical ran orderly
  exact ⟨kept.orderly, kept.keeps, kept.scopes_eq⟩

theorem probe (operand : Operand) : Lexical (probe ctx operand) := by
  intro s a t run orderly
  obtain ⟨frame, -⟩ := probe_ok run
  exact .of_same orderly (by rw [frame]) (by rw [frame])

/-- After a scope the table has the size it had. -/
theorem inScope_size {x : Gen Unit} (lexical : Lexical x) (run : inScope x s = .ok () t)
    (orderly : Orderly s.frame.locals) :
    s.KeepsVariables t ∧ t.frame.locals.size = s.frame.locals.size := by
  obtain ⟨u, start, rest, ran, opened, rfl⟩ := inScope_eq_ok.mp run
  have kept := lexical ran orderly
  obtain ⟨rfl, rfl⟩ := List.cons.inj (opened.symm.trans kept.scopes_eq)
  exact ⟨⟨orderly.take kept.orderly kept.keeps, kept.keeps.take, rfl⟩, kept.keeps.size_take⟩

theorem inScope {x : Gen Unit} (lexical : Lexical x) : Lexical (inScope x) :=
  fun _ _ _ run orderly => (lexical.inScope_size run orderly).1

theorem emitAll (code : List Instr) : Lexical (emitAll ctx code) := by
  induction code with
  | nil => exact pure ()
  | cons instr rest ih => exact bind (emit instr) fun _ => ih

theorem convertTop (source target : JType) :
    Lexical (convertTop ctx source target (conversion ctx source target)) := by
  rw [convertTop_conversion]
  exact ite (pure ()) (ite (throw _) (bind (emitAll _) fun _ => onFrame (.replaceTop target)))

theorem coerceTop (target : JType) : Lexical (coerceTop ctx target) :=
  bind (onFrame .peek) fun source => ite (convertTop source target) (throw _)

theorem castTop (target : JType) : Lexical (castTop ctx target) := by
  rw [castTop_eq]
  exact bind (onFrame .peek) fun source => convertTop source target

/-! ## Local variables -/

theorem slotOf (ref : LocalRef) : Lexical (slotOf ref) := by
  cases ref with
  | named name => exact onFrame (.resolveIndex name)
  | slot index => exact pure index

theorem loadSlot (slot : Slot) (ty : JType) : Lexical (loadSlot ctx slot ty) :=
  bind (emit _) fun _ => onFrame (.push ty)

theorem storeSlot (slot : Slot) : Lexical (storeSlot ctx slot) :=
  bind (onFrame .pop) fun _ => emit _

theorem load (ref : LocalRef) : Lexical (load ctx ref) :=
  bind (slotOf ref) fun slot => bind (onFrame (.localType slot)) fun ty => loadSlot slot ty

theorem increment (target : LocalRef) (step : Int32) : Lexical (increment ctx target step) := by
  refine bind (slotOf target) fun slot => bind (onFrame (.localType slot)) fun ty => ?_
  split
  · exact throw _
  · exact bind (loadSlot slot ty) fun _ => bind (bind (emit _) fun _ => onFrame (.push _)) fun _ =>
      bind (onFrame (.popN 2)) fun _ => bind (emit _) fun _ => bind (onFrame (.push _)) fun _ =>
        bind (castTop ty) fun _ => storeSlot slot

/-- A variable goes behind the table. -/
theorem addLocal (name : Option String) (ty : JType) :
    Lexical (Gen.onFrame (Frame.addLocal name ty)) := by
  intro s slot t run orderly
  obtain ⟨frame, ran, rfl⟩ := onFrame_eq_ok.mp run
  obtain ⟨few, storable, -, rfl⟩ := Frame.addLocal_eq_ok.mp ran
  obtain ⟨inOrder, keeps⟩ := orderly.added storable.value few name
  exact ⟨inOrder, keeps, rfl⟩

theorem declare (name : String) (ty : JType) {x : Gen Unit} (lexical : Lexical x) :
    Lexical (declare ctx name ty x) :=
  bind (value lexical) fun _ => bind (coerceTop ty) fun _ => bind (addLocal _ ty) fun slot =>
    storeSlot slot

theorem declareUninit (name : String) (ty : JType) : Lexical (declareUninit name ty) :=
  bind (addLocal _ ty) fun _ => pure ()

/-- A slot that has no type is written to. -/
theorem setLocal {slot : Slot} {ty : JType} (gap : typeIn? s.frame.locals slot.toNat = none)
    (run : Gen.onFrame (Frame.setLocal slot ty) s = .ok () t) (orderly : Orderly s.frame.locals) :
    s.KeepsVariables t := by
  obtain ⟨frame, ran, rfl⟩ := onFrame_eq_ok.mp run
  obtain ⟨storable, rfl⟩ := Frame.setLocal_eq_ok.mp ran
  exact ⟨orderly.written gap storable.value, orderly.keeps_written gap storable.value, rfl⟩

/-- A slot that is given no type before the value of a store is generated is a
gap then; a name stands for a slot with a type. -/
theorem storeTarget {target : LocalRef} {slot : Slot} {declared : Option JType}
    (found : Gen.storeTarget target s = .ok (slot, declared) t) :
    s = t ∧ (declared = none → target = .slot slot ∧ typeIn? s.frame.locals slot.toNat = none) := by
  cases target with
  | named name =>
      obtain ⟨_, u, resolved, run⟩ := bind_eq_ok.mp found
      obtain ⟨ty, v, typed, returned⟩ := bind_eq_ok.mp run
      obtain ⟨pair, rfl⟩ := pure_eq_ok.mp returned
      obtain ⟨-, rfl⟩ := Prod.mk.inj pair
      obtain ⟨-, rfl⟩ := resolveIndex_eq_ok.mp resolved
      obtain ⟨-, rfl⟩ := localType_eq_ok.mp typed
      exact ⟨rfl, by simp⟩
  | slot index =>
      cases found
      exact ⟨rfl, fun gap => ⟨rfl, gap⟩⟩

/-- A store writes to a variable, or into a gap that its value leaves. -/
theorem store {target : LocalRef} {x : Gen Unit} (lexical : Lexical x)
    (leaves : ∀ slot, target = .slot slot → LeavesGap slot x) : Lexical (store ctx target x) := by
  intro s a t run orderly
  obtain ⟨⟨slot, declared⟩, u, found, run⟩ := bind_eq_ok.mp run
  obtain ⟨rfl, gap⟩ := storeTarget found
  obtain ⟨ty, v, valued, run⟩ := bind_eq_ok.mp run
  have kept := value lexical valued orderly
  cases declared with
  | some declared =>
      exact kept.trans (bind (coerceTop declared) (fun _ => storeSlot slot) run kept.orderly)
  | none =>
      obtain ⟨_, w, written, stored⟩ := bind_eq_ok.mp run
      obtain ⟨isSlot, untyped⟩ := gap rfl
      have kept := kept.trans (setLocal (leaves slot isSlot valued untyped) written kept.orderly)
      exact kept.trans (storeSlot slot stored kept.orderly)

/-- The plan of actions that keep variables: a store by slot number needs a value
that leaves the slot a gap. -/
def plan : Plan where
  part _ _ x _ := Lexical x
  operand _ _ := True
  may
    | .touches => False
    | .stores target code => ∀ slot, target = .slot slot → LeavesGap slot code
    | _ => True

theorem of_made {x x' : Gen α} {ctx' : Context} {live : Bool}
    (made : Made ctx ctx' plan live x x') : Lexical x := by
  induction made with
  | pure a => exact .pure a
  | throw e => exact .throw e
  | seq _ _ _ first second => exact first.seq second
  | whenAlive _ lexical => exact .whenAlive lexical
  | onFrame _ noLocals => exact .onFrame noLocals
  | onLocals touches _ | emitVar code slot touches => exact touches.elim
  | emit _ _ | finish _ _ _ | receiver _ => exact .emit _
  | newLabel =>
      intro s a t run orderly
      obtain ⟨-, rfl⟩ := newLabel_eq_ok.mp run
      exact .of_same orderly rfl rfl
  | jump target _ => exact .jump _ target
  | place label _ => exact .place label
  | part lexical | reached lexical => exact lexical
  | value lexical => exact .value lexical
  | inScope _ lexical => exact .inScope lexical
  | operation name lexical => exact .operation name lexical
  | probe _ => exact .probe _
  | load ref _ => exact .load ref
  | store target _ _ leaves lexical => exact .store lexical leaves
  | declare name ty _ lexical => exact .declare name ty lexical
  | declareUninit name ty _ => exact .declareUninit name ty
  | increment target step _ _ => exact .increment target step

theorem bindParams (params : List (String × JType)) : Lexical (bindParams params) := by
  induction params with
  | nil => exact pure ()
  | cons param rest ih => exact bind (addLocal _ _) fun _ => ih

theorem arm (ty : JType) {x : Gen Unit} (lexical : Lexical x) :
    Lexical (do let _ ← Gen.value x; Gen.coerceTop ctx ty) :=
  bind (value lexical) fun _ => coerceTop ty

end Lexical

end Gen

open Gen

/-- The value of every store by slot number in the fragment leaves the slot
without a type if it has none. -/
def Fragment.LeavesGaps (ctx : Context) (fragment : Fragment) : Prop :=
  ∀ slot value, (.slot slot, value) ∈ storesIn fragment →
    ∀ pos, LeavesGap slot (codeFrom ctx pos 0 value)

theorem Fragment.LeavesGaps.lexical {ctx : Context} {fragment : Fragment}
    (leaves : fragment.LeavesGaps ctx) (pos : Position) (index : Nat) :
    Lexical (codeFrom ctx pos index fragment) := by
  have closed : Lexical.plan.Closed ctx ctx (localRefsIn fragment) (storesIn fragment) :=
    { part := Lexical.of_made
      operand := fun _ _ _ _ => trivial
      ends := trivial
      places := trivial
      writes := trivial
      refers := fun _ _ => trivial
      stores := by
        rintro ⟨_, value⟩ mem pos slot rfl
        exact leaves slot value mem pos }
  exact codeFrom_of_closed pos index fragment closed

/-! ## Scopes -/

/-- The actions of a fragment in a scope of its own: a block or the body of a
statement, and an arm of a conditional value. -/
inductive Fragment.Scoped (ctx : Context) (fragment : Fragment) : Gen Unit → Prop where
  | body (pos : Position) : Scoped ctx fragment (inScope (fragment.code ctx pos))
  | arm (pos : Position) (ty : JType) : Scoped ctx fragment (arm ctx ty (fragment.code ctx pos))

theorem Fragment.Scoped.exists_lexical {ctx : Context} {fragment : Fragment} {x : Gen Unit}
    (own : fragment.Scoped ctx x) (leaves : fragment.LeavesGaps ctx) :
    ∃ y, x = inScope y ∧ Lexical y := by
  cases own with
  | body pos => exact ⟨_, rfl, leaves.lexical pos 0⟩
  | arm pos ty => exact ⟨_, rfl, (leaves.lexical pos 0).arm ty⟩

/-- States in the course of generating a body.  Operations, scopes and the
beginnings of scopes lead from one to the next; what else happens within an
operation leaves its variables and scopes alone. -/
inductive Visited : State → Prop where
  | start {params : List (String × JType)} {s t : State} : s.frame.locals = {} →
      bindParams params s = .ok () t → Visited t
  | generate {ctx : Context} {fragment : Fragment} {s t : State} (pos : Position) (index : Nat) :
      Visited s → fragment.LeavesGaps ctx → codeFrom ctx pos index fragment s = .ok () t → Visited t
  | enter {s : State} : Visited s → Visited s.entered
  | scope {ctx : Context} {fragment : Fragment} {x : Gen Unit} {s t : State} : Visited s →
      fragment.LeavesGaps ctx → fragment.Scoped ctx x → x s = .ok () t → Visited t
  | aside {s t : State} : Visited s → t.frame.locals = s.frame.locals →
      t.frame.scopes = s.frame.scopes → Visited t

theorem Visited.orderly {s : State} (visited : Visited s) : Orderly s.frame.locals := by
  induction visited with
  | start none binds => exact (Lexical.bindParams _ binds (none ▸ .empty)).orderly
  | generate pos index _ leaves run ih => exact (leaves.lexical pos index run ih).orderly
  | enter _ ih => exact ih
  | scope _ leaves own run ih =>
      obtain ⟨y, rfl, lexical⟩ := own.exists_lexical leaves
      exact (lexical.inScope run ih).orderly
  | aside _ locals _ ih => exact locals ▸ ih

/-- The second state has the scopes and the number of slots of the first one, and
every name stands for the same slot with the same type, or for none. -/
structure State.SameVariables (s t : State) : Prop where
  scopes_eq : t.frame.scopes = s.frame.scopes
  count_eq : t.frame.localCount = s.frame.localCount
  binding_eq : ∀ name, t.frame.binding name = s.frame.binding name
  resolved : ∀ name, (∃ slot ty, s.frame.binding name = .ok (slot, ty)) ∨
    s.frame.binding name = .error (.unresolvedLocal name)

theorem Frame.Orderly.resolved {f : Frame} (orderly : Orderly f.locals) (name : String) :
    (∃ slot ty, f.binding name = .ok (slot, ty)) ∨
      f.binding name = .error (.unresolvedLocal name) := by
  cases found : Frame.indexIn? f.locals name with
  | none => exact .inr (Frame.binding_of_unnamed found)
  | some index =>
      obtain ⟨ty, -, here⟩ := orderly.exists_binding found
      exact .inl ⟨_, ty, here⟩

/-- A fragment in a scope of its own leaves the variables around it as they
were. -/
theorem Fragment.scope_lexical {ctx : Context} {fragment : Fragment} {x : Gen Unit} {s t : State}
    (visited : Visited s) (leaves : fragment.LeavesGaps ctx) (own : fragment.Scoped ctx x)
    (run : x s = .ok () t) : s.SameVariables t := by
  obtain ⟨y, rfl, lexical⟩ := own.exists_lexical leaves
  obtain ⟨kept, sizeEq⟩ := lexical.inScope_size run visited.orderly
  exact
    { scopes_eq := kept.scopes_eq
      count_eq := sizeEq
      binding_eq := kept.keeps.binding_eq visited.orderly kept.orderly sizeEq
      resolved := visited.orderly.resolved }

/-- A constant gives no slot a type. -/
theorem Fragment.LeavesGaps.of_constants {ctx : Context} {fragment : Fragment}
    (constants : ∀ store ∈ storesIn fragment, ∃ literal, store.2 = [.constant literal]) :
    fragment.LeavesGaps ctx := by
  intro slot value mem pos s ty t valued gap
  obtain ⟨literal, rfl⟩ := constants (.slot slot, value) mem
  obtain ⟨_, u, operated, finished⟩ := bind_eq_ok.mp (value_eq_ok.mp valued).1
  obtain ⟨-, rfl⟩ := pure_eq_ok.mp finished
  obtain ⟨-, u, ran, rfl⟩ := operation_eq_ok.mp operated
  obtain ⟨_, v, emitted, pushed⟩ := bind_eq_ok.mp ran
  have emits := (emit_emits (Instr.effect?_constantInstr literal).1 emitted).trans
    (push_emits pushed).1
  change typeIn? u.frame.locals slot.toNat = none
  rw [emits.locals_eq]
  exact gap

namespace Sample

open Fragment

/-- A wide value in two gaps, and a variable. -/
def slotReuseScope : Fragment :=
  [.store (.slot 1) [.constant (.long 9)], .declare "x" .long [.constant (.long 1)]]

/-- A variable behind gaps that a scope uses, which has a variable of the same
name. -/
def slotReuse : MethodSpec where
  name := "f"
  access := .publicStatic
  params := [("a", .int)]
  result := .int
  body :=
    [.store (.slot 3) (int 1),
      .declare "x" .int (int 5),
      .block slotReuseScope] ++
    loadNamed "x" ++ [.returnValue]

/-- The context of `slotReuse`. -/
def slotReuseContext : Context :=
  slotReuse.context (classContext "Demo" {})

/-- The state before the scope of `slotReuse`. -/
def slotReuseState : State :=
  stateAfter (Fragment.code slotReuseContext [] (slotReuse.body.take 2))
    (stateAfter (bindParams slotReuse.bindings) {})

theorem slotReuse_scope_lexical :
    Visited slotReuseState ∧ slotReuseScope.LeavesGaps slotReuseContext ∧
      slotReuseState.frame.binding "x" = .ok (4, .int) ∧
      ∃ t, inScope (slotReuseScope.code slotReuseContext [2]) slotReuseState = .ok () t ∧
        slotReuseState.SameVariables t := by
  have leaves : Fragment.LeavesGaps slotReuseContext (slotReuse.body.take 2) :=
    .of_constants (List.forall_mem_singleton.mpr ⟨_, rfl⟩)
  have leavesScope : slotReuseScope.LeavesGaps slotReuseContext :=
    .of_constants (List.forall_mem_singleton.mpr ⟨_, rfl⟩)
  obtain ⟨_, bound, binds⟩ : ∃ a t, bindParams slotReuse.bindings {} = .ok a t :=
    exists_ok_of_not_fails (by decide +kernel)
  obtain ⟨_, before, generates⟩ : ∃ a t,
      Fragment.code slotReuseContext [] (slotReuse.body.take 2)
        (stateAfter (bindParams slotReuse.bindings) {}) = .ok a t :=
    exists_ok_of_not_fails (by decide +kernel)
  have visited : Visited slotReuseState := by
    rw [slotReuseState, stateAfter_of_ok generates]
    rw [stateAfter_of_ok binds] at generates
    exact .generate [] 0 (.start rfl binds) leaves generates
  obtain ⟨_, t, ran⟩ : ∃ a t,
      inScope (slotReuseScope.code slotReuseContext [2]) slotReuseState = .ok a t :=
    exists_ok_of_not_fails (by decide +kernel)
  exact ⟨visited, leavesScope, by decide +kernel, t, ran,
    Fragment.scope_lexical visited leavesScope (.body [2]) ran⟩

/-- A wide value in the slot before the variable of `staleStore`. -/
def staleStoreScope : Fragment :=
  [.store (.slot 1) [.constant (.long 9)]]

/-- The value of the first store gives its slot a wide type, which the store then
writes over; the gap that is left stands before the variable. -/
def staleStore : MethodSpec where
  name := "f"
  access := .publicStatic
  params := []
  result := .int
  body :=
    [.store (.slot 0) ([.store (.slot 0) [.constant (.long 1)]] ++ int 5),
      .declare "x" .int (int 1),
      .block staleStoreScope] ++
    loadNamed "x" ++ [.returnValue]

/-- The context of `staleStore`. -/
def staleStoreContext : Context :=
  staleStore.context (classContext "Demo" {})

/-- The state before the scope of `staleStore`. -/
def staleStoreState : State :=
  stateAfter (Fragment.code staleStoreContext [] (staleStore.body.take 2)) {}

/-- A scope takes the name of a variable away, and the method that uses the
variable after it cannot be assembled. -/
theorem staleStore_scope_drops_variable :
    (∃ s t, Fragment.code staleStoreContext [] (staleStore.body.take 2) {} = .ok () s ∧
      inScope (staleStoreScope.code staleStoreContext [2]) s = .ok () t ∧
      s.frame.binding "x" = .ok (2, .int) ∧
      t.frame.binding "x" = .error (.unresolvedLocal "x")) ∧
      staleStore.assemble (classContext "Demo" {}) = .error (.unresolvedLocal "x") := by
  obtain ⟨_, s, generates⟩ : ∃ a s,
      Fragment.code staleStoreContext [] (staleStore.body.take 2) {} = .ok a s :=
    exists_ok_of_not_fails (by decide +kernel)
  obtain rfl : staleStoreState = s := stateAfter_of_ok generates
  obtain ⟨_, t, scopes⟩ : ∃ a t,
      inScope (staleStoreScope.code staleStoreContext [2]) staleStoreState = .ok a t :=
    exists_ok_of_not_fails (by decide +kernel)
  refine ⟨⟨staleStoreState, t, generates, scopes, by decide +kernel, ?_⟩, by decide +kernel⟩
  rw [← stateAfter_of_ok scopes]
  decide +kernel

end Sample

end JvmAssembler
