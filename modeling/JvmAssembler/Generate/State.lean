import Std.Data.TreeMap
import JvmAssembler.Config
import JvmAssembler.Frame
import JvmAssembler.MemberTable.Resolve
import JvmAssembler.Type.Descriptor

/-!
# Generator state

Generating a fragment checks it against the simulated frame, writes
instructions and applies their effect to the frame.  The state holds the frame,
the instructions and labels written so far, the log, and the types of fragments
that were probed.

Probing a fragment generates it in a dry run and keeps nothing but its type and
the log.  Inside one outermost operation each fragment is probed at most once:
its type is remembered under the fragment's position in the body, together with
the types of the fragments probed inside it.

A failing action returns the state it had reached, so that the instructions
written before the failure stay visible.
-/

namespace JvmAssembler

/-- Where a fragment or operation stands in a body: child numbers on the way
from it up to the body. -/
abbrev Position := List Nat

/-- How the type of a fragment is found before it is generated. -/
inductive Probing where
  /-- Dry-run a fragment once and remember its type. -/
  | remembered
  /-- Dry-run a fragment each time it is asked for. -/
  | fresh
  deriving DecidableEq

/-- What generation may consult about its surroundings. -/
structure ClassContext where
  this : ClassHandle
  table : MemberTable
  config : Config

/-- What generation may consult about the method. -/
structure Context extends ClassContext where
  isStatic : Bool
  result : JType
  probing : Probing := .remembered

/-- A line of the log. -/
inductive LogLine where
  | assembling (method : String) (signature : Signature)
  | assembled (method : String) (maxStack : UInt16) (maxLocals : Nat)
  /-- An instruction is written while the operands take `depth` slots. -/
  | emitted (depth : UInt16) (instr : Instr)
  deriving DecidableEq

/-- The line with its level. -/
def LogLine.text : LogLine → String
  | .assembling method signature => "DEBUG assembling " ++ method ++ signature.text
  | .assembled method maxStack maxLocals =>
      "DEBUG assembled " ++ method ++ ": max_stack=" ++ toString maxStack ++
        " max_locals=" ++ toString maxLocals
  | .emitted depth instr =>
      let number := toString depth
      "TRACE [" ++ "".pushn ' ' (3 - number.length) ++ number ++ "] " ++ instr.text

/-- Instructions written so far and the number of the next label. -/
structure Output where
  instrs : Array Instr := #[]
  nextLabel : Nat := 0
  deriving DecidableEq

namespace Output

def push (output : Output) (instr : Instr) : Output :=
  { output with instrs := output.instrs.push instr }

/-- A label that was not used before. -/
def newLabel (output : Output) : Label × Output :=
  (⟨output.nextLabel⟩, { output with nextLabel := output.nextLabel + 1 })

/-- Output of a run whose instructions are not kept.  Its labels are numbered
apart from those of kept output. -/
def discarded : Output :=
  { nextLabel := 2147483648 }

end Output

/-- Types of fragments by position. -/
abbrev ProbeMemory := Std.TreeMap Position JType

/-- The generator's state. -/
structure State where
  frame : Frame := {}
  output : Output := {}
  /-- Types of probed fragments. -/
  probed : ProbeMemory := ∅
  /-- Number of operations being generated, one inside the other. -/
  depth : Nat := 0
  log : Array LogLine := #[]

/-- A generator action. -/
abbrev Gen := EStateM Error State

namespace Gen

/-! ## Frame -/

/-- Perform a frame operation. -/
def onFrame {α : Type} (op : FrameOp α) : Gen α := fun ⟨frame, output, probed, depth, log⟩ =>
  match op frame with
  | .ok value frame => .ok value ⟨frame, output, probed, depth, log⟩
  | .error error frame => .error error ⟨frame, output, probed, depth, log⟩

/-- Whether the present position can be reached. -/
def isAlive : Gen Bool := fun s =>
  .ok s.frame.alive s

/-- Perform an action only where the position can be reached. -/
def whenAlive (action : Gen Unit) : Gen Unit := do
  if (← isAlive) then action

def push (ty : JType) : Gen Unit := onFrame (Frame.push ty)
def pop : Gen JType := onFrame Frame.pop
def popN (n : Nat) : Gen (List JType) := onFrame (Frame.popN n)
def peek : Gen JType := onFrame Frame.peek

/-! ## Instructions -/

/-- Write an instruction without checking the frame. -/
def write (ctx : Context) (instr : Instr) : Gen Unit := fun s =>
  .ok ()
    { s with
      output := s.output.push instr
      log := if ctx.config.debugCode then s.log.push (.emitted s.frame.depth instr) else s.log }

/-- Write an instruction other than a jump or a label.  A terminal one makes the
next position unreachable. -/
def emit (ctx : Context) (instr : Instr) : Gen Unit := do
  write ctx instr
  match instr with
  | .op code => if code.isTerminal then onFrame Frame.markDead
  | _ => pure ()

def emitOp (ctx : Context) (code : Opcode) : Gen Unit :=
  emit ctx (.op code)

/-- Write instructions one after the other. -/
def emitAll (ctx : Context) : List Instr → Gen Unit
  | [] => pure ()
  | instr :: rest => do
      emit ctx instr
      emitAll ctx rest

/-- A label that was not used before. -/
def newLabel : Gen Label := fun s =>
  let (label, output) := s.output.newLabel
  .ok label { s with output }

/-- Write a branch and record the stack shape for its target. -/
def jump (ctx : Context) (code : Opcode) (target : Label) : Gen Unit := do
  onFrame (Frame.jumpTo target)
  write ctx (.jump code target)
  if code = .goto then onFrame Frame.markDead

/-- Enter a label and write its position. -/
def place (ctx : Context) (label : Label) : Gen Unit := do
  onFrame (Frame.place label)
  write ctx (.label label)

/-! ## Fragments

A fragment is given to the actions below as the action that generates it. -/

/-- A fragment that some operation consumes: its position and the action that
generates it. -/
structure Operand where
  position : Position
  code : Gen Unit

/-- Generate a fragment that must leave exactly one value on the stack, and
return its type. -/
def value (code : Gen Unit) : Gen JType := do
  let before := (← get).frame.size
  code
  let pushed : Int := ((← get).frame.size : Int) - before
  if pushed ≠ 1 then throw (.internal (.notOneValue pushed))
  peek

/-- Generate a fragment in a scope of its own. -/
def inScope (code : Gen Unit) : Gen Unit := do
  onFrame Frame.beginScope
  code
  onFrame Frame.endScope

end Gen

namespace State

/-- The state in which a dry run starts. -/
def dryRun (s : State) : State :=
  { s with frame := s.frame.fork, output := .discarded, depth := s.depth + 1 }

/-- The state after a dry run that left this memory and log. -/
def afterProbe (s : State) (probed : ProbeMemory) (log : Array LogLine) : State :=
  { s with probed := if s.depth = 0 then ∅ else probed, log }

/-- The state after an operation that was entered at this depth. -/
def leave (s : State) (depth : Nat) : State :=
  { s with depth, probed := if depth = 0 then ∅ else s.probed }

end State

namespace Gen

/-- Dry-run a fragment for its type, remembering it. -/
def probeRemembered (operand : Operand) : Gen JType := fun s =>
  match s.probed[operand.position]? with
  | some ty => .ok ty s
  | none =>
      match value operand.code s.dryRun with
      | .ok ty dry => .ok ty (s.afterProbe (dry.probed.insert operand.position ty) dry.log)
      | .error error dry => .error error (s.afterProbe dry.probed dry.log)

/-- Dry-run a fragment for its type. -/
def probeFresh (operand : Operand) : Gen JType := fun s =>
  match value operand.code s.dryRun with
  | .ok ty dry => .ok ty { s with log := dry.log }
  | .error error dry => .error error { s with log := dry.log }

/-- The type a value fragment would produce, without writing anything. -/
def probe (ctx : Context) (operand : Operand) : Gen JType :=
  match ctx.probing with
  | .remembered => probeRemembered operand
  | .fresh => probeFresh operand

/-- Perform the body of an operation.  When the outermost operation ends, the
remembered types are dropped. -/
def nested (body : Gen Unit) : Gen Unit := fun s =>
  let depth := s.depth
  match body { s with depth := depth + 1 } with
  | .ok () t => .ok () (t.leave depth)
  | .error error t => .error error (t.leave depth)

/-- Perform the body of an operation with this name, which must stand at a
position that can be reached. -/
def operation (name : String) (body : Gen Unit) : Gen Unit :=
  nested do
    if (← isAlive) then body
    else throw (.invalidInput (.unreachable name))

end Gen

end JvmAssembler
