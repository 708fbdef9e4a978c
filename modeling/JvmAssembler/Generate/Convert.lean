import JvmAssembler.Generate.State

/-!
# Converting the value on top of the stack
-/

namespace JvmAssembler.Gen

/-- The conversion of a value of type `source` to `target` under the
configured rules. -/
def conversion (ctx : Context) (source target : JType) : Conversion :=
  .classify ctx.table ctx.config.narrowReinterpretation source target

/-- The primitive type that a conversion is from or to. -/
def expectPrimitive (ty : JType) : Gen Primitive :=
  match ty.asPrimitive? with
  | some p => pure p
  | none => throw (.internal (.notPrimitive ty))

/-- The primitive type in the objects of a wrapper class. -/
def expectUnboxed (ty : JType) : Gen Primitive :=
  match ty.unboxed? with
  | some p => pure p
  | none => throw (.internal (.notWrapper ty))

/-- Write the instructions that convert the top from `source` to `target`. -/
def writeConversion (ctx : Context) (source target : JType) : Conversion → Gen Unit
  | .identity => pure ()
  | .wideningPrimitive | .reinterpret | .narrowingPrimitive => do
      let p ← expectPrimitive source
      let q ← expectPrimitive target
      emitAll ctx (Conversion.primitiveInstrs p q)
  | .boxing => do
      let p ← expectPrimitive source
      emit ctx (Conversion.boxInstr p)
  | .boxingWidening => do
      let p ← expectPrimitive source
      emit ctx (Conversion.boxInstr p)
      emit ctx (.type .checkcast target)
  | .unboxing => do
      let q ← expectPrimitive target
      emit ctx (Conversion.unboxInstr q)
  | .unboxingWidening => do
      let p ← expectUnboxed source
      emit ctx (Conversion.unboxInstr p)
      let q ← expectPrimitive target
      emitAll ctx (Conversion.primitiveInstrs p q)
  | .checkedUnboxing => do
      let q ← expectPrimitive target
      emit ctx (.type .checkcast (.wrapperOf q))
      emit ctx (Conversion.unboxInstr q)
  | .wideningReference | .narrowingReference =>
      if source = .null then pure () else emit ctx (.type .checkcast target)
  | .illegal => throw (.illegalCast source target)

/-- Perform a conversion of the top from `source` to `target`. -/
def convertTop (ctx : Context) (source target : JType) : Conversion → Gen Unit
  | .identity => pure ()
  | conversion => do
      writeConversion ctx source target conversion
      onFrame (Frame.replaceTop target)

/-- Convert the top to `target` as an assignment does. -/
def coerceTop (ctx : Context) (target : JType) : Gen Unit := do
  let source ← peek
  let conversion := conversion ctx source target
  if conversion.isImplicit then convertTop ctx source target conversion
  else throw (.noConversion source target)

/-- Convert the top to `target` as a cast does. -/
def castTop (ctx : Context) (target : JType) : Gen Unit := do
  let source ← peek
  match conversion ctx source target with
  | .illegal => throw (.illegalCast source target)
  | conversion => convertTop ctx source target conversion

end JvmAssembler.Gen
