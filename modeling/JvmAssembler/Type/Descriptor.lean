import JvmAssembler.ClassHandle

/-!
# Descriptors

The class-file text of types and signatures, printed and read.  A field
descriptor is a primitive letter, `L` name `;`, or `[` before another field
descriptor; `V` stands for `void`, which is neither an element nor a parameter.

Printing replaces the class under construction by its name.  Reading gives the
types back; a class name is non-empty and has no dot and no semicolon.
-/

namespace JvmAssembler

namespace JType

/-- The descriptor of a type in the class `this`. -/
def descriptor (this : ClassHandle) : JType → Except Error String
  | .primitive p => .ok (String.singleton p.descriptorChar)
  | .cls name => .ok ("L" ++ name ++ ";")
  | .array elem => do
      let inner ← elem.descriptor this
      return "[" ++ inner
  | .self => do
      let name ← this.binaryName
      return "L" ++ name ++ ";"
  | .null => .error (.internal .nullDescriptor)
  | .void => .ok "V"

/-- The name of a type in a class constant: the binary name of a class, the
descriptor of an array. -/
def internalName (this : ClassHandle) : JType → Except Error String
  | .cls name => .ok name
  | .self => this.binaryName
  | .array elem => (JType.array elem).descriptor this
  | ty => .error (.internal (.noClassConstant ty))

/-- Read one descriptor and return what follows it. -/
def read? : List Char → Option (JType × List Char)
  | [] => none
  | 'V' :: rest => some (.void, rest)
  | '[' :: rest =>
      match read? rest with
      | none | some (.void, _) => none
      | some (elem, after) => some (.array elem, after)
  | 'L' :: rest =>
      let name := rest.takeWhile (· ≠ ';')
      match rest.dropWhile (· ≠ ';') with
      | [] => none
      | _ :: after =>
          if name.isEmpty || name.contains '.' then none
          else some (.cls (String.ofList name), after)
  | c :: rest => (Primitive.ofDescriptorChar? c).map fun p => (.primitive p, rest)

/-- Reading a descriptor consumes at least one character. -/
theorem length_lt_of_read? {chars after : List Char} {ty : JType}
    (found : read? chars = some (ty, after)) : after.length < chars.length := by
  induction chars generalizing ty after with
  | nil => simp [read?] at found
  | cons c rest ih =>
      unfold read? at found
      split at found
      · contradiction
      · simp_all
      · rename_i heq
        obtain ⟨rfl, rfl⟩ := List.cons.inj heq
        split at found
        · contradiction
        · contradiction
        · rename_i inner
          obtain ⟨rfl, rfl⟩ := Prod.mk.inj (Option.some.inj found)
          have shorter := ih inner
          simp only [List.length_cons]
          omega
      · rename_i heq
        obtain ⟨rfl, rfl⟩ := List.cons.inj heq
        have total := congrArg List.length
          (List.takeWhile_append_dropWhile (p := (· ≠ ';')) (l := rest))
        simp only [List.length_append] at total
        split at found
        · contradiction
        · rename_i tail
          dsimp only at found
          split at found
          · contradiction
          · obtain ⟨rfl, rfl⟩ := Prod.mk.inj (Option.some.inj found)
            simp only [ne_eq, decide_not] at tail total
            rw [tail] at total
            simp only [List.length_cons] at total ⊢
            omega
      · rename_i heq
        obtain ⟨rfl, rfl⟩ := List.cons.inj heq
        obtain ⟨p, _, pair⟩ := Option.map_eq_some_iff.mp found
        obtain ⟨rfl, rfl⟩ := Prod.mk.inj pair
        simp

/-- Read a whole text as one descriptor. -/
def parse (text : String) : Except Error JType :=
  match read? text.toList with
  | some (ty, []) => .ok ty
  | _ => .error (.invalidDescriptor text)

end JType

namespace Signature

/-- The descriptors of parameters, one after the other. -/
def paramDescriptors (this : ClassHandle) : List JType → Except Error String
  | [] => .ok ""
  | ty :: rest => do
      if ty.isVoid then throw (.invalidInput .voidParameter)
      let first ← ty.descriptor this
      let others ← paramDescriptors this rest
      return first ++ others

/-- The descriptor of a method signature in the class `this`. -/
def descriptor (this : ClassHandle) (sig : Signature) : Except Error String := do
  let params ← paramDescriptors this sig.params
  let result ← sig.result.descriptor this
  return "(" ++ params ++ ")" ++ result

/-- Read parameters up to the closing parenthesis and return what follows. -/
def readParams? (chars : List Char) : Option (List JType × List Char) :=
  match chars with
  | [] => none
  | ')' :: after => some ([], after)
  | c :: rest =>
      match found : JType.read? (c :: rest) with
      | none | some (.void, _) => none
      | some (ty, after) =>
          have := JType.length_lt_of_read? found
          (readParams? after).map fun (params, tail) => (ty :: params, tail)
termination_by chars.length
decreasing_by exact this

/-- Read a whole text as a method descriptor. -/
def parse (text : String) : Except Error Signature :=
  let read := match text.toList with
    | '(' :: rest => do
        let (params, afterParams) ← readParams? rest
        let (result, after) ← JType.read? afterParams
        if after.isEmpty then some { params, result : Signature } else none
    | _ => none
  match read with
  | some sig => .ok sig
  | none => .error (.invalidDescriptor text)

end Signature

end JvmAssembler
