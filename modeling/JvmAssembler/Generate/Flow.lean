import JvmAssembler.Generate.Value

/-!
# Generating branches and structured control flow

A condition never becomes a value: its action branches to a label when the
condition has a given sense and falls through otherwise, leaving the stack as
it was.

Bodies run in scopes of their own.  A part that cannot be reached, because of a
constant condition or because the code before it ended, is not generated; a
label that nothing jumps to stays unreachable.
-/

namespace JvmAssembler.Gen

/-- The action of a condition: branch to the label if the condition evaluates
to the given sense. -/
abbrev Branch := Bool → Label → Gen Unit

/-! ## Leaves -/

def constBranch (ctx : Context) (value : Bool) : Branch := fun sense target => do
  if value = sense then jump ctx .goto target

/-- The fragment yields `wanted`. -/
def truthBranch (ctx : Context) (wanted : Bool) (code : Gen Unit) : Branch :=
  fun sense target => do
    let _ ← value code
    coerceTop ctx .boolean
    let _ ← pop
    jump ctx (if wanted = sense then .ifne else .ifeq) target

/-- The fragment yields `null`, if `wanted`, or something else, if not. -/
def nullBranch (ctx : Context) (wanted : Bool) (operand : Operand) : Branch :=
  fun sense target => do
    let ty ← probe ctx operand
    if ty.isPrimitive then throw (.nullComparedToPrimitive ty)
    let _ ← value operand.code
    let _ ← pop
    jump ctx (if wanted = sense then .ifnull else .ifnonnull) target

/-- The instruction that compares two values of a computational type other than
`int`.  For less-than operators the result that stands for "not a number" is
below zero when the comparison should hold; for the others it is above. -/
def comparison? (ty : Primitive) (op : RelOp) (nan : Bool) : Option Opcode :=
  let low := (op = .lt || op = .le) == nan
  match ty with
  | .long => some .lcmp
  | .float => some (if low then .fcmpl else .fcmpg)
  | .double => some (if low then .dcmpl else .dcmpg)
  | _ => none

/-- Branch on two numbers of a computational type on the stack. -/
def numericBranch (ctx : Context) (ty : Primitive) (op : RelOp) (nan : Bool) (target : Label) :
    Gen Unit := do
  let _ ← popN 2
  match comparison? ty op nan with
  | some code =>
      emitOp ctx code
      jump ctx op.zeroBranch target
  | none => jump ctx op.intBranch target

/-- Branch on the identity of two references on the stack. -/
def identityBranch (ctx : Context) (equal : Bool) (target : Label) : Gen Unit := do
  let _ ← popN 2
  jump ctx (if equal then .ifAcmpeq else .ifAcmpne) target

/-- Generate both operands of a comparison, the left one converted first. -/
def comparands (ctx : Context) (left right : Operand) (ty : JType) : Gen Unit := do
  let _ ← value left.code
  coerceTop ctx ty
  let _ ← value right.code
  coerceTop ctx ty

/-- Compare two fragments.  Two references compare by identity under `==` and
`!=`; otherwise wrappers are unboxed and both sides promoted to a common numeric
type.  A primitive meets a reference that may hold its wrapper by a checked
conversion of the right operand. -/
def compareBranch (ctx : Context) (written : RelOp) (left right : Operand) (writtenNan : Bool) :
    Branch := fun sense target => do
  let leftType ← probe ctx left
  let rightType ← probe ctx right
  if leftType = .null && rightType.isPrimitive then throw (.nullComparedToPrimitive rightType)
  if rightType = .null && leftType.isPrimitive then throw (.nullComparedToPrimitive leftType)
  let op := if sense then written else written.negate
  let nan := if sense then writtenNan else !writtenNan
  if leftType.isReference && rightType.isReference && written.isEquality then
    let _ ← value left.code
    let _ ← value right.code
    identityBranch ctx (op = .eq) target
  else if leftType.isBooleanLike || rightType.isBooleanLike then
    if !written.isEquality then throw (.invalidInput (.notOnBoolean written))
    comparands ctx left right .boolean
    let _ ← popN 2
    jump ctx op.intBranch target
  else
    match JType.binaryPromotion? leftType rightType with
    | some promoted =>
        comparands ctx left right (.primitive promoted)
        numericBranch ctx promoted op nan target
    | none =>
        match leftType, rightType with
        | .primitive _, .primitive _ => throw (.noConversion rightType leftType)
        | .primitive p, _ =>
            let _ ← value left.code
            let _ ← value right.code
            coerceTop ctx leftType
            numericBranch ctx p.computational op nan target
        | _, .primitive p =>
            if written.isEquality then
              let _ ← value left.code
              let _ ← value right.code
              coerceTop ctx (.wrapperOf p)
              identityBranch ctx (op = .eq) target
            else throw (.invalidInput (.notComparable written leftType rightType))
        | _, _ => throw (.invalidInput (.notComparable written leftType rightType))

/-! ## Junctions -/

/-- Perform actions until one of them leaves the position unreachable. -/
def untilDead : List (Gen Unit) → Gen Unit
  | [] => pure ()
  | action :: rest => do
      action
      if (← isAlive) then untilDead rest

/-- The parts of a junction whose first part with this sense decides it: each
part branches to the target by itself. -/
def eachBranch (parts : List Branch) (sense : Bool) (target : Label) : Gen Unit :=
  untilDead (parts.map fun part => part sense target)

/-- The parts of a junction that has this sense only if all its parts do: every
part but the last skips the rest when it has the opposite sense. -/
def lastBranch (ctx : Context) (parts : List Branch) (sense : Bool) (target : Label) :
    Gen Unit := do
  match parts.getLast? with
  | none => jump ctx .goto target
  | some last =>
      let skip ← newLabel
      eachBranch parts.dropLast (!sense) skip
      whenAlive (last sense target)
      place ctx skip

/-- A conjunction is false as soon as a part is. -/
def conjBranch (ctx : Context) (parts : List Branch) : Branch := fun sense target =>
  if sense then lastBranch ctx parts true target else eachBranch parts false target

/-- A disjunction is true as soon as a part is. -/
def disjBranch (ctx : Context) (parts : List Branch) : Branch := fun sense target =>
  if sense then eachBranch parts true target else lastBranch ctx parts false target

/-! ## Statements -/

def ifThen (ctx : Context) (cond : Branch) (body : Gen Unit) : Gen Unit := do
  let stop ← newLabel
  cond false stop
  whenAlive (inScope body)
  place ctx stop

def ifElse (ctx : Context) (cond : Branch) (body otherwise : Gen Unit) : Gen Unit := do
  let stop ← newLabel
  let elseLabel ← newLabel
  cond false elseLabel
  whenAlive (inScope body)
  whenAlive (jump ctx .goto stop)
  place ctx elseLabel
  whenAlive (inScope otherwise)
  place ctx stop

def whileLoop (ctx : Context) (cond : Branch) (body : Gen Unit) : Gen Unit := do
  let start ← newLabel
  let stop ← newLabel
  place ctx start
  cond false stop
  whenAlive do
    inScope body
    whenAlive (jump ctx .goto start)
  place ctx stop

/-! ## Conditional values -/

/-- One arm of a conditional, converted to the common type. -/
def arm (ctx : Context) (ty : JType) (code : Gen Unit) : Gen Unit :=
  inScope do
    let _ ← value code
    coerceTop ctx ty

/-- Both arms are converted to the type they agree on. -/
def conditional (ctx : Context) (cond : Branch) (thenArm elseArm : Operand) : Gen Unit := do
  let thenType ← probe ctx thenArm
  let elseType ← probe ctx elseArm
  match JType.common ctx.table ctx.config.narrowReinterpretation thenType elseType with
  | .error error => throw error
  | .ok ty =>
      let elseLabel ← newLabel
      let stop ← newLabel
      cond false elseLabel
      whenAlive do
        arm ctx ty thenArm.code
        jump ctx .goto stop
      place ctx elseLabel
      whenAlive (arm ctx ty elseArm.code)
      place ctx stop

/-- The condition as a boolean value. -/
def condValue (ctx : Context) (cond : Branch) : Gen Unit := do
  let whenFalse ← newLabel
  let stop ← newLabel
  cond false whenFalse
  whenAlive do
    boolean ctx true
    jump ctx .goto stop
  place ctx whenFalse
  whenAlive (boolean ctx false)
  place ctx stop

end JvmAssembler.Gen
