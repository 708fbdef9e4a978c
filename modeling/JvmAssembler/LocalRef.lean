/-!
# References to local variables
-/

namespace JvmAssembler

/-- Number of a local variable slot. -/
abbrev Slot := UInt16

/-- A local variable, by name or by slot. -/
inductive LocalRef where
  | named (name : String)
  | slot (index : Slot)
  deriving DecidableEq

/-- The reference as it is written in messages. -/
def LocalRef.text : LocalRef → String
  | .named name => name
  | .slot index => "$" ++ toString index.toNat

end JvmAssembler
