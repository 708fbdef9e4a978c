import Mathlib
import JvmAssembler.Proofs.PoolRuns
import JvmAssembler.Proofs.RoundTrip

/-!
# Encoding again

Encoding asks the pool for one constant after the other, and the answers decide
both the operand bytes and the lengths of instructions.  A pool never forgets
the index of a constant.  So what was encoded once finds all its constants in
every later pool, gets the same answers and adds nothing.

Main statement: after a successful encoding and any further requests, encoding
the same instructions succeeds with the same bytes and leaves the pool alone.
-/

namespace JvmAssembler

namespace ConstantPool

variable {α β : Type} {pool middle after later : ConstantPool}

/-- Every index that the first pool knows, the second knows too. -/
def Remembers (pool after : ConstantPool) : Prop :=
  ∀ (key : List UInt8) (index : UInt16), pool.index[key]? = some index →
    after.index[key]? = some index

theorem Remembers.refl (pool : ConstantPool) : pool.Remembers pool :=
  fun _ _ known => known

theorem Remembers.trans (first : pool.Remembers middle) (second : middle.Remembers after) :
    pool.Remembers after :=
  fun key index known => second key index (first key index known)

/-- An operation that forgets no index, and that answers the same, and adds
nothing, in every pool that remembers what it left. -/
structure Repeatable (op : PoolOp α) : Prop where
  remembers : ∀ pool : ConstantPool, pool.Remembers (poolAfter op pool)
  again : ∀ {pool : ConstantPool} {a : α} {after later : ConstantPool},
    op pool = .ok a after → after.Remembers later → op later = .ok a later

theorem Repeatable.remembers_of_ok {op : PoolOp α} {a : α} (repeatable : Repeatable op)
    (run : op pool = .ok a after) : pool.Remembers after := by
  have kept := repeatable.remembers pool
  rwa [poolAfter, run] at kept

namespace Repeatable

theorem pure (a : α) : Repeatable (pure a : PoolOp α) where
  remembers pool := .refl pool
  again run _ := by
    cases run
    rfl

theorem throw (e : Error) : Repeatable (throw e : PoolOp α) where
  remembers pool := .refl pool
  again run _ := by cases run

theorem lift (result : Except Error α) : Repeatable (lift result) where
  remembers pool := by cases result <;> exact .refl pool
  again run _ := by
    obtain ⟨rfl, -⟩ := lift_eq_ok.mp run
    exact lift_eq_ok.mpr ⟨rfl, rfl⟩

theorem bind {op : PoolOp α} {next : α → PoolOp β} (first : Repeatable op)
    (second : ∀ a, Repeatable (next a)) : Repeatable (op >>= next) where
  remembers pool := by
    have kept := first.remembers pool
    cases ran : op pool with
    | ok a middle =>
        have same : poolAfter (op >>= next) pool = poolAfter (next a) middle := by
          rw [poolAfter, poolAfter, bind_apply_of_ok ran]
        rw [same]
        exact (first.remembers_of_ok ran).trans ((second a).remembers middle)
    | error e middle =>
        have same : poolAfter (op >>= next) pool = poolAfter op pool := by
          rw [poolAfter, poolAfter, bind_apply_of_error ran, ran]
        rwa [same]
  again run kept := by
    obtain ⟨a, middle, ran, rest⟩ := bind_eq_ok.mp run
    have grown := ((second a).remembers_of_ok rest).trans kept
    exact bind_eq_ok.mpr ⟨a, _, first.again ran grown, (second a).again rest kept⟩

/-- Once a constant has been added, adding it only looks up its bytes. -/
theorem add (constant : Constant) : Repeatable (add constant) where
  remembers pool := by
    rcases ran : ConstantPool.add constant pool with ⟨index, after⟩ | ⟨e, after⟩
    · rw [poolAfter, ran]
      rcases add_cases ran with ⟨-, rfl⟩ | ⟨-, -, rfl⟩
      · exact .refl _
      · intro key other known
        rw [Std.TreeMap.getElem?_insert]
        split
        · -- A key that was known has the index that the addition found.
          rename_i same
          rw [← Std.LawfulEqOrd.eq_of_compare same] at known
          rw [add_of_known known] at ran
          exact congrArg some (EStateM.Result.ok.inj ran).1.symm
        · exact known
    · rw [poolAfter, ran]
      obtain ⟨-, -, -, rfl⟩ := add_eq_error_iff.mp ran
      exact .refl _
  again run kept := by
    rcases add_cases run with ⟨known, rfl⟩ | ⟨-, -, rfl⟩
    · exact add_of_known (kept _ _ known)
    · exact add_of_known (kept _ _ Std.TreeMap.getElem?_insert_self)

/-! ## Requests -/

theorem addClass (internalName : String) : Repeatable (addClass internalName) :=
  (add _).bind fun _ => add _

theorem addType (this : ClassHandle) (ty : JType) : Repeatable (addType this ty) :=
  (lift _).bind fun name => addClass name

theorem addString (text : String) : Repeatable (addString text) :=
  (add _).bind fun _ => add _

theorem addNameAndType (name descriptor : String) : Repeatable (addNameAndType name descriptor) :=
  (add _).bind fun _ => (add _).bind fun _ => add _

theorem addMemberRef (this : ClassHandle) (ref : MemberRef) :
    Repeatable (addMemberRef this ref) :=
  (addType this ref.owner).bind fun _ => (lift _).bind fun descriptor =>
    (addNameAndType ref.name descriptor).bind fun _ => add _

theorem addLiteral (literal : Literal) : Repeatable (addLiteral literal) := by
  cases literal with
  | string text => exact addString text
  | _ => exact add _

theorem answer (request : PoolRequest) : Repeatable request.answer := by
  cases request with
  | raw constant => exact add constant
  | utf8 text => exact add _
  | cls internalName => exact addClass internalName
  | type this ty => exact addType this ty
  | string text => exact addString text
  | nameAndType name descriptor => exact addNameAndType name descriptor
  | member this ref => exact addMemberRef this ref
  | literal value => exact addLiteral value

end Repeatable

theorem remembers_serve (pool : ConstantPool) (requests : List PoolRequest) :
    pool.Remembers (pool.serve requests) := by
  induction requests generalizing pool with
  | nil => exact .refl pool
  | cons request rest ih => exact ((Repeatable.answer request).remembers pool).trans (ih _)

/-- An operation that gives a value leaves some pool. -/
theorem exists_ok_of_run' {op : PoolOp α} {a : α} (run : EStateM.run' op pool = some a) :
    ∃ after, op pool = .ok a after := by
  unfold EStateM.run' EStateM.run at run
  split at run <;> cases run
  exact ⟨_, by assumption⟩

end ConstantPool

namespace Bytecode

open ConstantPool

theorem piece_repeatable (this : ClassHandle) (instr : Instr) :
    Repeatable (piece this instr) := by
  cases instr with
  | op code | jump code target | label position => exact .pure _
  | int code operand | var code slot => exact (Repeatable.lift _).bind fun _ => .pure _
  | type code ty => exact (Repeatable.addType this ty).bind fun _ => .pure _
  | ldc literal => exact (Repeatable.addLiteral literal).bind fun _ => .pure _
  | member code ref =>
      exact (Repeatable.addMemberRef this ref).bind fun _ =>
        (Repeatable.lift _).bind fun _ => .pure _

theorem pieces_repeatable (this : ClassHandle) (instrs : List Instr) :
    Repeatable (pieces this instrs) := by
  induction instrs with
  | nil => exact .pure []
  | cons instr rest ih =>
      rw [pieces, List.mapM_cons]
      exact (piece_repeatable this instr).bind fun _ => ih.bind fun _ => .pure _

theorem encode_repeatable (this : ClassHandle) (limit : Nat) (instrs : List Instr) :
    Repeatable (encode this limit instrs) := by
  refine (pieces_repeatable this instrs).bind fun ps => ?_
  dsimp only
  split
  · exact (Repeatable.throw _).bind fun _ => .lift _
  · exact .lift _

/-- What was encoded once is encoded to the same bytes in every later pool, and
no constant is added then. -/
theorem encode_serve_of_encode (this : ClassHandle) (limit : Nat) (instrs : List Instr)
    (pool grown : ConstantPool) (bytes : List UInt8) (requests : List PoolRequest)
    (encoded : encode this limit instrs pool = .ok bytes grown) :
    encode this limit instrs (grown.serve requests) = .ok bytes (grown.serve requests) :=
  (encode_repeatable this limit instrs).again encoded (remembers_serve grown requests)

end Bytecode

namespace Sample

/-- Two constants that a pool lacks and a method that `mixedRequests` left there. -/
def mixedLoads : List Instr :=
  [.ldc (.long (-1)), .ldc (.string "né"),
    .member .invokestatic (.method .self "f" [.int] .long)]

/-- The constants get indices 10 and 13 and keep them, whatever is added after them. -/
theorem mixedLoads_encode_again :
    ∃ grown,
      Bytecode.encode (.named "Demo" "java/lang/Object") 65535 mixedLoads
          (ConstantPool.blank.serve mixedRequests) =
        .ok [0x14, 0, 10, 0x12, 13, 0xb8, 0, 8] grown ∧
      Bytecode.encode (.named "Demo" "java/lang/Object") 65535 mixedLoads
          (grown.serve [.raw (.integer 5), .cls "Other"]) =
        .ok [0x14, 0, 10, 0x12, 13, 0xb8, 0, 8] (grown.serve [.raw (.integer 5), .cls "Other"]) := by
  obtain ⟨grown, encoded⟩ := ConstantPool.exists_ok_of_run'
    (show EStateM.run' (Bytecode.encode (.named "Demo" "java/lang/Object") 65535 mixedLoads)
        (ConstantPool.blank.serve mixedRequests) = some [0x14, 0, 10, 0x12, 13, 0xb8, 0, 8] by
      decide +kernel)
  exact ⟨grown, encoded, Bytecode.encode_serve_of_encode _ _ _ _ grown _ _ encoded⟩

end Sample

end JvmAssembler
