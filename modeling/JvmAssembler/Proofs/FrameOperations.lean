import Mathlib
import JvmAssembler.Proofs.LocalTable
import JvmAssembler.Proofs.Sequencing

/-!
# Successful frame operations

For each operation on a frame: when it succeeds, what it returns and which frame
it leaves.  Everything else about runs of these operations follows from here.
-/

namespace JvmAssembler

/-- The frame that an operation leaves, whether it succeeds or fails. -/
def FrameOp.leaves {α : Type} (op : FrameOp α) (f : Frame) : Frame :=
  match op f with
  | .ok _ g | .error _ g => g

namespace FrameOp

variable {α β : Type} {op : FrameOp α} {next : α → FrameOp β} {f g : Frame}

theorem leaves_of_ok {a : α} (ran : op f = .ok a g) : op.leaves f = g := by
  simp [leaves, ran]

theorem leaves_of_error {e : Error} (failed : op f = .error e g) : op.leaves f = g := by
  simp [leaves, failed]

theorem leaves_bind_of_ok {a : α} (ran : op f = .ok a g) :
    leaves (op >>= next) f = (next a).leaves g := by
  rw [leaves, leaves, bind_apply_of_ok ran]

theorem leaves_bind_of_error {e : Error} (failed : op f = .error e g) :
    leaves (op >>= next) f = g :=
  leaves_of_error (bind_apply_of_error failed)

end FrameOp

namespace Frame

variable {f g : Frame} {ty : JType}

/-! ## Operand stack -/

/-- The frame with one more operand. -/
def pushed (f : Frame) (ty : JType) : Frame :=
  { f with
    stack := ty :: f.stack
    depth := f.depth + ty.width.toUInt16
    maxStack := max f.maxStack (f.depth + ty.width.toUInt16) }

theorem maxStack_pushed (f : Frame) (ty : JType) :
    (f.pushed ty).maxStack.toNat = max f.maxStack.toNat (f.pushed ty).depth.toNat :=
  UInt16.toNat_max _ _

/-- The frame without the operands on top. -/
def dropped (f : Frame) (count : Nat) : Frame :=
  { f with
    stack := f.stack.drop count
    depth := f.depth - JType.slotCount (f.stack.take count) }

theorem push_eq_ok : push ty f = .ok () g ↔ ty.isVoid = false ∧ g = f.pushed ty := by
  unfold push pushed
  cases ty.isVoid <;> simp [eq_comm]

theorem pop_eq_ok :
    pop f = .ok ty g ↔
      ∃ rest, f.stack = ty :: rest ∧
        g = { f with stack := rest, depth := f.depth - ty.width.toUInt16 } := by
  unfold pop
  cases f.stack with
  | nil => simp
  | cons top rest =>
      constructor
      · rintro ⟨⟩
        exact ⟨rest, rfl, rfl⟩
      · rintro ⟨_, ⟨⟩, rfl⟩
        rfl

theorem popN_eq_ok {n : Nat} {types : List JType} :
    popN n f = .ok types g ↔
      n ≤ f.stack.length ∧ types = (f.stack.take n).reverse ∧ g = f.dropped n := by
  simp only [popN, dropped, List.length_take]
  split_ifs with missing
  · simp only [false_iff, not_and]
    omega
  · have enough : n ≤ f.stack.length := by omega
    simp [enough, eq_comm]

theorem peek_eq_ok : peek f = .ok ty g ↔ (∃ rest, f.stack = ty :: rest) ∧ f = g := by
  unfold peek
  cases f.stack <;> simp [eq_comm]

/-- Replacing the top succeeds exactly if there is one, and its new type has
values. -/
theorem replaceTop_eq_ok :
    replaceTop ty f = .ok () g ↔
      ∃ top rest, f.stack = top :: rest ∧ ty.isVoid = false ∧
        g = { f with
          stack := ty :: rest
          depth := f.depth - top.width.toUInt16 + ty.width.toUInt16
          maxStack := max f.maxStack (f.depth - top.width.toUInt16 + ty.width.toUInt16) } := by
  simp only [replaceTop, bind_eq_ok, pop_eq_ok, push_eq_ok]
  constructor
  · rintro ⟨top, _, ⟨rest, stackEq, rfl⟩, value, rfl⟩
    exact ⟨top, rest, stackEq, value, rfl⟩
  · rintro ⟨top, rest, stackEq, value, rfl⟩
    exact ⟨top, _, ⟨rest, stackEq, rfl⟩, value, rfl⟩

/-! ## Local variables -/

/-- A local variable may have this type. -/
def IsStorable (ty : JType) : Prop :=
  ¬(ty = .void ∨ ty = .null)

theorem IsStorable.value (storable : IsStorable ty) : ty.isVoid = false := by
  cases ty with
  | void => exact absurd (.inl rfl) storable
  | _ => rfl

/-- The frame with one more variable. -/
def added (f : Frame) (name : Option String) (ty : JType) : Frame :=
  { f.writeSlots f.locals.size ty with
    locals := renamed (written f.locals f.locals.size ty) f.locals.size name }

theorem setLocal_eq_ok {index : Slot} :
    setLocal index ty f = .ok () g ↔ IsStorable ty ∧ g = f.writeSlots index.toNat ty := by
  unfold setLocal IsStorable
  split_ifs with unfit
  · simp [unfit]
  · simp [unfit, eq_comm]

theorem addLocal_eq_ok {name : Option String} {slot : Slot} :
    addLocal name ty f = .ok slot g ↔
      f.localCount ≤ 65535 ∧ IsStorable ty ∧ slot = f.localCount.toUInt16 ∧
        g = f.added name ty := by
  simp only [addLocal, IsStorable, localCount]
  split_ifs with many unfit
  · simp [many]
  · simp [unfit]
  · simp only [not_lt.mp many, unfit, EStateM.Result.ok.injEq, not_false_eq_true, true_and]
    exact and_congr eq_comm eq_comm

theorem resolveIndex_eq_ok {name : String} {slot : Slot} :
    resolveIndex name f = .ok slot g ↔
      f = g ∧ ∃ index, indexIn? f.locals name = some index ∧
        index.toUInt16 = slot := by
  unfold resolveIndex
  cases indexIn? f.locals name with
  | none => simp
  | some index => simp [and_comm]

theorem localType_eq_ok {slot : Slot} :
    localType slot f = .ok ty g ↔ f.slotType? slot.toNat = some ty ∧ f = g := by
  unfold localType
  cases f.slotType? slot.toNat <;> simp

/-! ## Scopes -/

theorem endScope_eq_ok :
    endScope f = .ok () g ↔
      ∃ start rest, f.scopes = start :: rest ∧
        g = { f with scopes := rest, locals := f.locals.take start } := by
  unfold endScope
  cases f.scopes <;> simp [eq_comm]

/-! ## Labels -/

/-- In `g` the label has the given shape, which does not contradict what `f`
recorded for it; other labels keep their shapes. -/
structure Records (f g : Frame) (label : Label) (shape : List JType) : Prop where
  agrees : ∀ known, f.shapes.lookup label = some known → known = shape
  lookup_eq : ∀ other,
    g.shapes.lookup other = if other = label then some shape else f.shapes.lookup other

theorem merge_eq_ok {label : Label} {shape : List JType}
    (run : merge label shape f = .ok () g) :
    Records f g label shape ∧ ∃ shapes, g = { f with shapes } := by
  unfold merge at run
  split at run
  · rename_i expected known
    split at run
    · rename_i same
      cases run
      subst same
      refine ⟨⟨?_, ?_⟩, f.shapes, rfl⟩
      · intro other found
        exact Option.some.inj (found.symm.trans known)
      · intro other
        by_cases isLabel : other = label
        · simp [isLabel, known]
        · simp [isLabel]
    · contradiction
  · rename_i unknown
    cases run
    refine ⟨⟨?_, ?_⟩, _, rfl⟩
    · intro known found
      rw [unknown] at found
      contradiction
    · intro other
      by_cases isLabel : other = label
      · simp [isLabel]
      · have differs : (other == label) = false := by simpa using isLabel
        simp [isLabel, List.lookup_cons, differs]

/-- Operands that do not contradict what is known of a label can be recorded for it. -/
theorem merge_of_agrees {label : Label} {shape : List JType}
    (agrees : ∀ known, f.shapes.lookup label = some known → known = shape) :
    ∃ g, merge label shape f = .ok () g := by
  unfold merge
  cases known : f.shapes.lookup label with
  | none => exact ⟨_, rfl⟩
  | some expected => exact ⟨f, if_pos (agrees expected known)⟩

theorem place_of_alive {label : Label} (alive : f.alive = true) :
    place label f = merge label f.stack f :=
  if_pos alive

/-- A label is entered with the present operands, or where there are none to
go on with, with those recorded for it. -/
theorem place_eq_ok {label : Label} :
    place label f = .ok () g ↔
      (f.alive = true ∧ merge label f.stack f = .ok () g) ∨
      (f.alive = false ∧ f.shapes.lookup label = none ∧ f = g) ∨
      (f.alive = false ∧ ∃ shape, f.shapes.lookup label = some shape ∧
        g = { f with stack := shape, depth := JType.slotCount shape, alive := true }) := by
  unfold place
  cases f.alive with
  | true => simp
  | false => cases f.shapes.lookup label <;> simp [eq_comm]

end Frame

end JvmAssembler
