import JvmAssembler.Error

/-!
# Simulated machine state

What the machine holds while a body is assembled, as far as types tell: the
operand stack, the local variable slots with the scopes that own them, whether
the present position can be reached, and the stack shape recorded for each
label, so that all ways into a label can be checked against each other.

Operations return the new frame beside their result.  An operation that fails
returns the frame as far as it got, which only `replaceTop` changes before it
can fail.
-/

namespace JvmAssembler

/-- The types and the names of the local variable slots.  A wide variable has its
type in two slots and its name in the first. -/
structure LocalTable where
  types : Array (Option JType) := #[]
  names : Array (Option String) := #[]
  deriving DecidableEq

namespace LocalTable

/-- Number of slots. -/
def size (locals : LocalTable) : Nat :=
  locals.types.size

/-- The table without the slots from `count` on. -/
def take (locals : LocalTable) (count : Nat) : LocalTable :=
  { types := locals.types.take count, names := locals.names.take count }

end LocalTable

/-- The simulated state. -/
structure Frame where
  /-- Operand types, top first. -/
  stack : List JType := []
  /-- Slots taken by the operands, counted in 16 bits. -/
  depth : UInt16 := 0
  /-- Greatest depth so far. -/
  maxStack : UInt16 := 0
  locals : LocalTable := {}
  /-- Greatest end of a written variable so far, as a 16-bit number. -/
  maxLocals : Nat := 0
  /-- Numbers of slots at the starts of the open scopes, innermost first. -/
  scopes : List Nat := []
  /-- Whether the present position can be reached. -/
  alive : Bool := true
  /-- Recorded stack shapes, top first. -/
  shapes : List (Label × List JType) := []
  deriving DecidableEq

/-- An operation on a frame that may fail. -/
abbrev FrameOp := EStateM Error Frame

namespace Frame

/-- The frame for a dry run, which only jumps to labels of its own. -/
def fork (f : Frame) : Frame :=
  { f with shapes := [] }

/-! ## Operand stack -/

/-- Number of operands. -/
def size (f : Frame) : Nat :=
  f.stack.length

def push (ty : JType) : FrameOp Unit := fun f =>
  if ty.isVoid then .error (.internal .voidPushed) f
  else
    .ok ()
      { f with
        stack := ty :: f.stack
        depth := f.depth + ty.width.toUInt16
        maxStack := max f.maxStack (f.depth + ty.width.toUInt16) }

def pop : FrameOp JType := fun f =>
  match f.stack with
  | [] => .error (.internal .popEmpty) f
  | ty :: rest => .ok ty { f with stack := rest, depth := f.depth - ty.width.toUInt16 }

/-- Pop `n` operands and return them in the order in which they were pushed. -/
def popN (n : Nat) : FrameOp (List JType) := fun f =>
  let popped := f.stack.take n
  if popped.length < n then .error (.internal (.popMissing n f.stack.length)) f
  else
    .ok popped.reverse
      { f with stack := f.stack.drop n, depth := f.depth - JType.slotCount popped }

/-- The operand on top. -/
def peek : FrameOp JType := fun f =>
  match f.stack with
  | [] => .error (.internal .peekEmpty) f
  | ty :: _ => .ok ty f

/-- Give the operand on top another type. -/
def replaceTop (ty : JType) : FrameOp Unit := do
  let _ ← pop
  push ty

/-! ## Local variables -/

/-- Number of slots in the table. -/
def localCount (f : Frame) : Nat :=
  f.locals.size

/-- The type recorded for a slot of a table. -/
def typeIn? (locals : LocalTable) (index : Nat) : Option JType :=
  locals.types[index]?.join

/-- The type recorded for a slot. -/
def slotType? (f : Frame) (index : Nat) : Option JType :=
  typeIn? f.locals index

/-- Exactly `count` entries: those beyond are dropped, and missing ones are empty. -/
def resized {α : Type} (entries : Array (Option α)) (count : Nat) : Array (Option α) :=
  entries.take count ++ Array.replicate (count - entries.size) none

/-- The table with at least `count` slots. -/
def extended (locals : LocalTable) (count : Nat) : LocalTable :=
  if locals.size < count then
    { types := resized locals.types count, names := resized locals.names count }
  else locals

/-- The table after a variable that begins at `index` is replaced by one of type
`ty`: the second slot of a wide variable is freed if the new one is narrow. -/
def freed (locals : LocalTable) (index : Nat) (ty : JType) : LocalTable :=
  let wasWide := match typeIn? locals index with
    | some old => old.isWide
    | none => false
  if wasWide && ty.width == 1 then
    { locals with types := locals.types.modify (index + 1) fun _ => none }
  else locals

/-- Write a type into a table of slots from `index` on.  A wide variable takes
the name of its second slot away. -/
def written (locals : LocalTable) (index : Nat) (ty : JType) : LocalTable :=
  let room := extended (freed locals index ty) (index + ty.width)
  let types := room.types.modify index fun _ => some ty
  if ty.width == 2 then
    { types := types.modify (index + 1) fun _ => some ty
      names := room.names.modify (index + 1) fun _ => none }
  else { room with types }

/-- The table with another name for a slot. -/
def renamed (locals : LocalTable) (index : Nat) (name : Option String) : LocalTable :=
  { locals with names := locals.names.modify index fun _ => name }

/-- Write a type into the slots from `index` on. -/
def writeSlots (f : Frame) (index : Nat) (ty : JType) : Frame :=
  { f with
    locals := written f.locals index ty
    maxLocals := max f.maxLocals ((index + ty.width) % 65536) }

/-- Write a type into the slot `index` and, if it is wide, the one after it. -/
def setLocal (index : Slot) (ty : JType) : FrameOp Unit := fun f =>
  if ty = .void ∨ ty = .null then .error (.invalidInput (.localCannotHold ty)) f
  else .ok () (f.writeSlots index.toNat ty)

/-- Allocate the next free slots for a variable. -/
def addLocal (name : Option String) (ty : JType) : FrameOp Slot := fun f =>
  let index := f.locals.size
  if 65535 < index then .error (.invalidInput .tooManyLocals) f
  else if ty = .void ∨ ty = .null then .error (.invalidInput (.localCannotHold ty)) f
  else
    let g := f.writeSlots index ty
    .ok index.toUInt16 { g with locals := renamed g.locals index name }

/-- The last of the first `count` entries that is this name. -/
def lastNamed (names : Array (Option String)) (name : String) : Nat → Option Nat
  | 0 => none
  | count + 1 =>
      if names[count]?.join = some name then some count else lastNamed names name count

/-- The slot of a table that is bound to a name; the latest binding counts. -/
def indexIn? (locals : LocalTable) (name : String) : Option Nat :=
  lastNamed locals.names name locals.names.size

/-- The slot bound to a name. -/
def resolveIndex (name : String) : FrameOp Slot := fun f =>
  match indexIn? f.locals name with
  | some index => .ok index.toUInt16 f
  | none => .error (.unresolvedLocal name) f

/-- Write a type into the slot bound to a name, or allocate one. -/
def setNamedLocal (name : String) (ty : JType) : FrameOp Slot := fun f =>
  match resolveIndex name f with
  | .ok index f => (do setLocal index ty; return index : FrameOp Slot) f
  | .error _ f => addLocal (some name) ty f

/-- The type of an allocated slot. -/
def localType (index : Slot) : FrameOp JType := fun f =>
  match f.slotType? index.toNat with
  | some ty => .ok ty f
  | none => .error (.internal (.slotNotAllocated index)) f

/-! ## Scopes -/

def beginScope : FrameOp Unit := fun f =>
  .ok () { f with scopes := f.locals.size :: f.scopes }

/-- Drop every slot added since the matching `beginScope`. -/
def endScope : FrameOp Unit := fun f =>
  match f.scopes with
  | [] => .error (.internal .noOpenScope) f
  | start :: rest => .ok () { f with scopes := rest, locals := f.locals.take start }

/-! ## Reachability and joins -/

def markDead : FrameOp Unit := fun f =>
  .ok () { f with alive := false }

/-- Record the stack shape of one way into a label; all ways must agree. -/
def merge (label : Label) (shape : List JType) : FrameOp Unit := fun f =>
  match f.shapes.lookup label with
  | some expected =>
      if expected = shape then .ok () f
      else .error (.internal (.stackMismatch label expected.reverse shape.reverse)) f
  | none => .ok () { f with shapes := (label, shape) :: f.shapes }

/-- Record a jump to a label from the present position. -/
def jumpTo (label : Label) : FrameOp Unit := fun f =>
  merge label f.stack f

/-- Enter a label.  A position that cannot be reached from above continues
with the shape recorded for the label; without one it stays unreachable. -/
def place (label : Label) : FrameOp Unit := fun f =>
  if f.alive then merge label f.stack f
  else
    match f.shapes.lookup label with
    | some shape =>
        .ok () { f with stack := shape, depth := JType.slotCount shape, alive := true }
    | none => .ok () f

end Frame

end JvmAssembler
