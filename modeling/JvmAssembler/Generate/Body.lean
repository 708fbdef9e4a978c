import JvmAssembler.Generate.Flow

/-!
# Generating bodies

Every operation, fragment and condition of a body denotes a generator action.
The recursion follows the body and hands the actions of the parts to the action
of the whole, together with the positions of the fragments that are probed.
-/

namespace JvmAssembler

open Gen

mutual

/-- The action of an operation at a position. -/
def Op.body (ctx : Context) (pos : Position) : Op → Gen Unit
  | .constant value => Gen.constant ctx value
  | .boolean value => Gen.boolean ctx value
  | .null => Gen.source ctx .aconstNull .null
  | .this => Gen.receiverLoad ctx
  | .load source => Gen.load ctx source
  | .store target value => Gen.store ctx target (codeFrom ctx (0 :: pos) 0 value)
  | .declare name type init => Gen.declare ctx name type (codeFrom ctx (0 :: pos) 0 init)
  | .declareUninit name type => Gen.declareUninit name type
  | .increment target step => Gen.increment ctx target step
  | .getField name => Gen.getField ctx name
  | .putField name value => Gen.putField ctx name (codeFrom ctx (0 :: pos) 0 value)
  | .getStatic owner name => Gen.getStatic ctx owner name
  | .putStatic owner name value =>
      Gen.putStatic ctx owner name (codeFrom ctx (0 :: pos) 0 value)
  | .invoke name args => Gen.invoke ctx name (operandsFrom ctx pos 0 args)
  | .invokeStatic owner name args =>
      Gen.invokeStatic ctx owner name (operandsFrom ctx pos 0 args)
  | .construct type args => Gen.construct ctx type (operandsFrom ctx pos 0 args)
  | .superInit args => Gen.superInit ctx (operandsFrom ctx pos 0 args)
  | .newArray elem length => Gen.newArray ctx elem (codeFrom ctx (0 :: pos) 0 length)
  | .arrayLoad index => Gen.arrayLoad ctx (codeFrom ctx (0 :: pos) 0 index)
  | .arrayStore index value =>
      Gen.arrayStore ctx (codeFrom ctx (0 :: pos) 0 index) (codeFrom ctx (1 :: pos) 0 value)
  | .arrayLength => Gen.arrayLength ctx
  | .arith op right => Gen.arith ctx op ⟨0 :: pos, codeFrom ctx (0 :: pos) 0 right⟩
  | .negate => Gen.negate ctx
  | .cast target => Gen.castTop ctx target
  | .convert target => Gen.coerceTop ctx target
  | .instanceOf type => Gen.instanceOf ctx type
  | .pop => Gen.discard ctx
  | .returnValue => Gen.returnValue ctx
  | .returnVoid => Gen.returnVoid ctx
  | .throw => Gen.raise ctx
  | .ifThen cond body =>
      Gen.ifThen ctx (cond.branch ctx (0 :: pos)) (codeFrom ctx (1 :: pos) 0 body)
  | .ifElse cond body otherwise =>
      Gen.ifElse ctx (cond.branch ctx (0 :: pos)) (codeFrom ctx (1 :: pos) 0 body)
        (codeFrom ctx (2 :: pos) 0 otherwise)
  | .whileLoop cond body =>
      Gen.whileLoop ctx (cond.branch ctx (0 :: pos)) (codeFrom ctx (1 :: pos) 0 body)
  | .conditional cond thenArm elseArm =>
      Gen.conditional ctx (cond.branch ctx (0 :: pos))
        ⟨1 :: pos, codeFrom ctx (1 :: pos) 0 thenArm⟩
        ⟨2 :: pos, codeFrom ctx (2 :: pos) 0 elseArm⟩
  | .condValue cond => Gen.condValue ctx (cond.branch ctx (0 :: pos))
  | .block body => Gen.inScope (codeFrom ctx (0 :: pos) 0 body)
  | .malformed reason => throw (.invalidInput (.malformed reason))

/-- The action of the rest of a fragment at a position, from the operation with
this index on. -/
def codeFrom (ctx : Context) (pos : Position) (index : Nat) : List Op → Gen Unit
  | [] => pure ()
  | op :: rest => do
      Gen.operation op.name (op.body ctx (index :: pos))
      codeFrom ctx pos (index + 1) rest

/-- The arguments of a call at a position, from the one with this index on. -/
def operandsFrom (ctx : Context) (pos : Position) (index : Nat) : List (List Op) → List Operand
  | [] => []
  | arg :: rest =>
      ⟨index :: pos, codeFrom ctx (index :: pos) 0 arg⟩ :: operandsFrom ctx pos (index + 1) rest

/-- The branch of a condition at a position. -/
def Cond.branch (ctx : Context) (pos : Position) : Cond → Branch
  | .const value => Gen.constBranch ctx value
  | .truth value => Gen.truthBranch ctx true (codeFrom ctx (0 :: pos) 0 value)
  | .falsity value => Gen.truthBranch ctx false (codeFrom ctx (0 :: pos) 0 value)
  | .isNull value => Gen.nullBranch ctx true ⟨0 :: pos, codeFrom ctx (0 :: pos) 0 value⟩
  | .nonNull value => Gen.nullBranch ctx false ⟨0 :: pos, codeFrom ctx (0 :: pos) 0 value⟩
  | .compare op left right nan =>
      Gen.compareBranch ctx op ⟨0 :: pos, codeFrom ctx (0 :: pos) 0 left⟩
        ⟨1 :: pos, codeFrom ctx (1 :: pos) 0 right⟩ nan
  | .conj parts => Gen.conjBranch ctx (branchesFrom ctx pos 0 parts)
  | .disj parts => Gen.disjBranch ctx (branchesFrom ctx pos 0 parts)

/-- The branches of the parts of a junction at a position, from the part with
this index on. -/
def branchesFrom (ctx : Context) (pos : Position) (index : Nat) : List Cond → List Branch
  | [] => []
  | part :: rest => part.branch ctx (index :: pos) :: branchesFrom ctx pos (index + 1) rest

end

/-- The action of a whole fragment at a position. -/
def Fragment.code (ctx : Context) (pos : Position) (fragment : Fragment) : Gen Unit :=
  codeFrom ctx pos 0 fragment

/-- A fragment as an operand at a position. -/
def Fragment.operand (ctx : Context) (pos : Position) (fragment : Fragment) : Operand :=
  ⟨pos, fragment.code ctx pos⟩

end JvmAssembler
