import Mathlib
import JvmAssembler.Type.Descriptor

/-!
# Descriptors are read and printed by one grammar

The grammar of field, result and method descriptors, as predicates on texts.
Reading succeeds on exactly these texts and printing what was read gives the
text back.  A type that can stand in a descriptor is printed, and its text reads
as the type with the class under construction replaced by its name.

A field type and its text are compared with any text behind it, which is how
both the elements of arrays and the parameters of methods are read.
-/

namespace JvmAssembler

/-- A class name as it stands between `L` and `;`. -/
structure IsClassName (name : List Char) : Prop where
  nonempty : name ≠ []
  noDot : '.' ∉ name
  noSemicolon : ';' ∉ name

/-- The texts that describe the type of a field. -/
inductive IsFieldDescriptor : List Char → Prop where
  | primitive {letter : Char} : letter ∈ ['Z', 'B', 'S', 'C', 'I', 'J', 'F', 'D'] →
      IsFieldDescriptor [letter]
  | cls {name : List Char} : IsClassName name → IsFieldDescriptor ('L' :: (name ++ [';']))
  | array {elem : List Char} : IsFieldDescriptor elem → IsFieldDescriptor ('[' :: elem)

/-- The texts that describe the result of a method. -/
def IsResultDescriptor (text : List Char) : Prop :=
  text = ['V'] ∨ IsFieldDescriptor text

/-- The texts that describe parameters, one after the other. -/
inductive IsParamDescriptors : List Char → Prop where
  | nil : IsParamDescriptors []
  | cons {first rest : List Char} : IsFieldDescriptor first → IsParamDescriptors rest →
      IsParamDescriptors (first ++ rest)

/-- The texts that describe a method. -/
def IsMethodDescriptor (text : List Char) : Prop :=
  ∃ params result, IsParamDescriptors params ∧ IsResultDescriptor result ∧
    text = '(' :: (params ++ ')' :: result)

theorem Primitive.mem_descriptorChar (p : Primitive) :
    p.descriptorChar ∈ ['Z', 'B', 'S', 'C', 'I', 'J', 'F', 'D'] := by
  cases p <;> decide

theorem Primitive.exists_of_mem {letter : Char}
    (mem : letter ∈ ['Z', 'B', 'S', 'C', 'I', 'J', 'F', 'D']) :
    ∃ p : Primitive, p.descriptorChar = letter := by
  simp only [List.mem_cons, List.not_mem_nil, or_false] at mem
  rcases mem with rfl | rfl | rfl | rfl | rfl | rfl | rfl | rfl
  exacts [⟨.boolean, rfl⟩, ⟨.byte, rfl⟩, ⟨.short, rfl⟩, ⟨.char, rfl⟩, ⟨.int, rfl⟩, ⟨.long, rfl⟩,
    ⟨.float, rfl⟩, ⟨.double, rfl⟩]

theorem Primitive.descriptorChar_of_ofDescriptorChar? {letter : Char} {p : Primitive}
    (found : Primitive.ofDescriptorChar? letter = some p) : p.descriptorChar = letter := by
  simpa using List.find?_some found

namespace JType

/-- The type can be the type of a field of the class `this`: it has no `null`
and no `void` in it, and its class names can be written. -/
def IsField (this : ClassHandle) : JType → Prop
  | .primitive _ => True
  | .cls name => IsClassName name.toList
  | .array elem => elem.IsField this
  | .self => ∃ name, this.name? = some name ∧ IsClassName name.toList
  | .null | .void => False

/-- The type can be the result of a method of the class `this`. -/
def IsResult (this : ClassHandle) (ty : JType) : Prop :=
  ty = .void ∨ ty.IsField this

/-- The type with the class under construction replaced by the class of its
name. -/
def inClass (this : ClassHandle) : JType → JType
  | .array elem => .array (elem.inClass this)
  | .self => (this.name?.map JType.cls).getD .self
  | ty => ty

theorem IsField.isVoid_eq_false {this : ClassHandle} {ty : JType} (field : ty.IsField this) :
    ty.isVoid = false := by
  cases ty with
  | void => exact field.elim
  | _ => rfl

theorem inClass_ne_void {this : ClassHandle} {ty : JType} (field : ty.IsField this) :
    ty.inClass this ≠ .void := by
  cases ty with
  | self =>
      obtain ⟨name, named, -⟩ := field
      simp [inClass, named]
  | void => exact field.elim
  | _ => simp [inClass]

/-- A name is read up to its semicolon. -/
theorem read?_cls {name : List Char} (valid : IsClassName name) (rest : List Char) :
    read? ('L' :: (name ++ ';' :: rest)) = some (.cls (String.ofList name), rest) := by
  have holds : ∀ c ∈ name, decide (c ≠ ';') = true := by
    intro c mem
    simpa using ne_of_mem_of_not_mem mem valid.noSemicolon
  have name_eq : (name ++ ';' :: rest).takeWhile (· ≠ ';') = name := by
    rw [List.takeWhile_append_of_pos holds]
    simp
  have rest_eq : (name ++ ';' :: rest).dropWhile (· ≠ ';') = ';' :: rest := by
    rw [List.dropWhile_append_of_pos holds]
    simp
  rw [read?, name_eq, rest_eq]
  simp [valid.nonempty, valid.noDot]

theorem read?_array {elem : JType} (notVoid : elem ≠ .void) {chars after : List Char}
    (found : read? chars = some (elem, after)) :
    read? ('[' :: chars) = some (.array elem, after) := by
  rw [read?, found]
  cases elem <;> simp_all

theorem read?_primitive (p : Primitive) (rest : List Char) :
    read? (p.descriptorChar :: rest) = some (.primitive p, rest) := by
  cases p <;> rfl

/-- A field type has a text, and this text is a field descriptor. -/
theorem IsField.exists_descriptor {this : ClassHandle} {ty : JType} (field : ty.IsField this) :
    ∃ text, ty.descriptor this = .ok text ∧ IsFieldDescriptor text.toList ∧
      ∀ rest, read? (text.toList ++ rest) = some (ty.inClass this, rest) := by
  induction ty with
  | primitive p =>
      refine ⟨_, rfl, ?_, fun rest => ?_⟩
      · simpa using IsFieldDescriptor.primitive p.mem_descriptorChar
      · simpa [inClass] using read?_primitive p rest
  | cls name =>
      refine ⟨_, rfl, ?_, fun rest => ?_⟩
      · simpa using IsFieldDescriptor.cls field
      · simpa [inClass] using read?_cls field rest
  | array elem ih =>
      obtain ⟨text, printed, described, read⟩ := ih field
      refine ⟨"[" ++ text, ?_, ?_, fun rest => ?_⟩
      · rw [descriptor, printed]
        rfl
      · simpa using described.array
      · have notVoid : elem.inClass this ≠ .void := inClass_ne_void field
        simpa [inClass] using read?_array notVoid (read rest)
  | self =>
      obtain ⟨name, named, valid⟩ := field
      refine ⟨"L" ++ name ++ ";", ?_, ?_, fun rest => ?_⟩
      · rw [descriptor, ClassHandle.binaryName, named]
        rfl
      · simpa using IsFieldDescriptor.cls valid
      · simpa [inClass, named] using read?_cls valid rest
  | null => exact field.elim
  | void => exact field.elim

/-- The type is a field type with the text `text` in every class. -/
def SpelledBy (ty : JType) (text : String) : Prop :=
  ∀ this, ty.IsField this ∧ ty.descriptor this = .ok text

theorem SpelledBy.array {elem : JType} {text : String} (spelled : elem.SpelledBy text) :
    (JType.array elem).SpelledBy ("[" ++ text) := by
  intro this
  obtain ⟨field, printed⟩ := spelled this
  refine ⟨field, ?_⟩
  rw [descriptor, printed]
  rfl

theorem spelledBy_cls {name : List Char} (valid : IsClassName name) :
    (JType.cls (String.ofList name)).SpelledBy ("L" ++ String.ofList name ++ ";") :=
  fun _ => ⟨by simpa [IsField] using valid, rfl⟩

theorem spelledBy_primitive (p : Primitive) :
    (JType.primitive p).SpelledBy (String.singleton p.descriptorChar) :=
  fun _ => ⟨trivial, rfl⟩

/-- A name is followed by its semicolon. -/
theorem eq_takeWhile_append {rest after : List Char} {head : Char}
    (tail : rest.dropWhile (· ≠ ';') = head :: after) :
    rest = rest.takeWhile (· ≠ ';') ++ ';' :: after := by
  have ends : head = ';' := by
    have found : rest.dropWhile (· ≠ ';') ≠ [] := by
      rw [tail]
      exact List.cons_ne_nil _ _
    simpa only [tail, List.head_cons, decide_eq_false_iff_not, ne_eq, not_not] using
      List.head_dropWhile_not _ found
  conv_lhs => rw [← List.takeWhile_append_dropWhile (p := (· ≠ ';')) (l := rest), tail, ends]

/-- What is read is `void` from a `V`, or a field type from its text. -/
theorem eq_of_read? {chars after : List Char} {ty : JType}
    (found : read? chars = some (ty, after)) :
    (ty = .void ∧ chars = 'V' :: after) ∨
      ∃ text, chars = text.toList ++ after ∧ ty.SpelledBy text := by
  fun_induction read? chars generalizing ty after with
  | case1 | case3 | case4 | case6 | case7 => contradiction
  | case2 rest =>
      obtain ⟨rfl, rfl⟩ := Prod.mk.inj (Option.some.inj found)
      exact .inl ⟨rfl, rfl⟩
  | case5 rest elem _ notVoid inner ih =>
      obtain ⟨rfl, rfl⟩ := Prod.mk.inj (Option.some.inj found)
      obtain ⟨isVoid, -⟩ | ⟨text, rfl, spelled⟩ := ih inner
      · exact (notVoid isVoid).elim
      · exact .inr ⟨"[" ++ text, by simp, spelled.array⟩
  | case8 rest name _ _ tail =>
      rename_i accepted
      obtain ⟨rfl, rfl⟩ := Prod.mk.inj (Option.some.inj found)
      rw [Bool.or_eq_true, List.isEmpty_iff, List.contains_iff_mem, not_or] at accepted
      have valid : IsClassName name :=
        ⟨accepted.1, accepted.2, fun mem => by simpa using List.mem_takeWhile_imp mem⟩
      have whole := eq_takeWhile_append tail
      exact .inr ⟨_, by simpa [name] using whole, spelledBy_cls valid⟩
  | case9 c rest =>
      obtain ⟨p, letter, pair⟩ := Option.map_eq_some_iff.mp found
      obtain ⟨rfl, rfl⟩ := Prod.mk.inj pair
      obtain rfl := Primitive.descriptorChar_of_ofDescriptorChar? letter
      exact .inr ⟨_, by simp, spelledBy_primitive p⟩

end JType

/-- Every field descriptor is the text of a field type. -/
theorem IsFieldDescriptor.exists_spelledBy {chars : List Char} (field : IsFieldDescriptor chars) :
    ∃ ty : JType, ty.SpelledBy (String.ofList chars) := by
  induction field with
  | primitive letter =>
      obtain ⟨p, rfl⟩ := Primitive.exists_of_mem letter
      exact ⟨_, JType.spelledBy_primitive p⟩
  | @cls name valid =>
      have text_eq : String.ofList ('L' :: (name ++ [';'])) = "L" ++ String.ofList name ++ ";" :=
        String.toList_inj.mp (by simp)
      exact ⟨_, text_eq ▸ JType.spelledBy_cls valid⟩
  | @array chars _ ih =>
      obtain ⟨elem, spelled⟩ := ih
      have text_eq : String.ofList ('[' :: chars) = "[" ++ String.ofList chars :=
        String.toList_inj.mp (by simp)
      exact ⟨_, text_eq ▸ spelled.array⟩

namespace Signature

/-- The signature can be that of a method of the class `this`. -/
def IsDescribable (this : ClassHandle) (sig : Signature) : Prop :=
  (∀ ty ∈ sig.params, ty.IsField this) ∧ sig.result.IsResult this

/-- The signature with the class under construction replaced by the class of
its name. -/
def inClass (this : ClassHandle) (sig : Signature) : Signature where
  params := sig.params.map (JType.inClass this)
  result := sig.result.inClass this

theorem readParams?_close (after : List Char) : readParams? (')' :: after) = some ([], after) := by
  rw [readParams?]

theorem readParams?_field {chars after : List Char} {ty : JType}
    (found : JType.read? chars = some (ty, after)) (notVoid : ty ≠ .void) :
    readParams? chars = (readParams? after).map fun read => (ty :: read.1, read.2) := by
  rw [readParams?.eq_def]
  split
  · contradiction
  · contradiction
  · split <;> simp_all

theorem paramDescriptors_cons {this : ClassHandle} {ty : JType} {params : List JType}
    {first rest : String} (field : ty.IsField this) (printed : ty.descriptor this = .ok first)
    (printedRest : paramDescriptors this params = .ok rest) :
    paramDescriptors this (ty :: params) = .ok (first ++ rest) := by
  rw [paramDescriptors, printed, printedRest, field.isVoid_eq_false]
  rfl

/-- Parameters of field types have texts, and these read back. -/
theorem exists_paramDescriptors {this : ClassHandle} {params : List JType}
    (fields : ∀ ty ∈ params, ty.IsField this) :
    ∃ text, paramDescriptors this params = .ok text ∧ IsParamDescriptors text.toList ∧
      ∀ rest, readParams? (text.toList ++ ')' :: rest) =
        some (params.map (JType.inClass this), rest) := by
  induction params with
  | nil => exact ⟨"", rfl, .nil, fun rest => readParams?_close rest⟩
  | cons ty params ih =>
      obtain ⟨field, others⟩ := List.forall_mem_cons.mp fields
      obtain ⟨first, printed, described, read⟩ := field.exists_descriptor
      obtain ⟨rest, printedRest, describedRest, readRest⟩ := ih others
      refine ⟨first ++ rest, ?_, ?_, fun after => ?_⟩
      · exact paramDescriptors_cons field printed printedRest
      · simpa using IsParamDescriptors.cons described describedRest
      · rw [String.toList_append, List.append_assoc,
          readParams?_field (read _) (JType.inClass_ne_void field), readRest]
        rfl

/-- The parameters are of field types and have the text `text` in every class. -/
def ParamsSpelledBy (params : List JType) (text : String) : Prop :=
  ∀ this, (∀ ty ∈ params, ty.IsField this) ∧ paramDescriptors this params = .ok text

theorem paramsSpelledBy_nil : ParamsSpelledBy [] "" :=
  fun _ => ⟨by simp, rfl⟩

theorem ParamsSpelledBy.cons {ty : JType} {params : List JType} {first rest : String}
    (spelled : ty.SpelledBy first) (others : ParamsSpelledBy params rest) :
    ParamsSpelledBy (ty :: params) (first ++ rest) := by
  intro this
  obtain ⟨field, printed⟩ := spelled this
  obtain ⟨fields, printedRest⟩ := others this
  exact ⟨List.forall_mem_cons.mpr ⟨field, fields⟩, paramDescriptors_cons field printed printedRest⟩

/-- Parameters are read from their texts. -/
theorem eq_of_readParams? {chars after : List Char} {params : List JType}
    (found : readParams? chars = some (params, after)) :
    ∃ text, chars = text.toList ++ ')' :: after ∧ ParamsSpelledBy params text := by
  fun_induction readParams? chars generalizing params after with
  | case1 | case3 | case4 => contradiction
  | case2 =>
      obtain ⟨rfl, rfl⟩ := Prod.mk.inj (Option.some.inj found)
      exact ⟨"", rfl, paramsSpelledBy_nil⟩
  | case5 c rest _ ty behind notVoid first _ ih =>
      obtain ⟨⟨others, _⟩, readOthers, pair⟩ := Option.map_eq_some_iff.mp found
      obtain ⟨rfl, rfl⟩ := Prod.mk.inj pair
      obtain ⟨isVoid, -⟩ | ⟨text, whole, spelled⟩ := JType.eq_of_read? first
      · exact (notVoid isVoid).elim
      · obtain ⟨textRest, rfl, spelledRest⟩ := ih readOthers
        exact ⟨text ++ textRest, by simp [whole], .cons spelled spelledRest⟩

end Signature

theorem IsParamDescriptors.exists_spelledBy {chars : List Char}
    (described : IsParamDescriptors chars) :
    ∃ params, Signature.ParamsSpelledBy params (String.ofList chars) := by
  induction described with
  | nil => exact ⟨[], Signature.paramsSpelledBy_nil⟩
  | cons field _ ih =>
      obtain ⟨ty, spelled⟩ := field.exists_spelledBy
      obtain ⟨params, spelledRest⟩ := ih
      exact ⟨ty :: params, String.ofList_append ▸ .cons spelled spelledRest⟩

namespace JType

/-- The type is a result type with the text `text` in every class. -/
def ResultSpelledBy (ty : JType) (text : String) : Prop :=
  ∀ this, ty.IsResult this ∧ ty.descriptor this = .ok text

theorem SpelledBy.result {ty : JType} {text : String} (spelled : ty.SpelledBy text) :
    ty.ResultSpelledBy text :=
  fun this => ⟨.inr (spelled this).1, (spelled this).2⟩

theorem resultSpelledBy_void : JType.void.ResultSpelledBy "V" :=
  fun _ => ⟨.inl rfl, rfl⟩

theorem IsResult.exists_descriptor {this : ClassHandle} {ty : JType} (result : ty.IsResult this) :
    ∃ text, ty.descriptor this = .ok text ∧ IsResultDescriptor text.toList ∧
      ∀ rest, read? (text.toList ++ rest) = some (ty.inClass this, rest) := by
  obtain rfl | field := result
  · exact ⟨"V", rfl, .inl rfl, fun rest => rfl⟩
  · obtain ⟨text, printed, described, read⟩ := field.exists_descriptor
    exact ⟨text, printed, .inr described, read⟩

theorem exists_resultSpelledBy_of_read? {chars after : List Char} {ty : JType}
    (found : read? chars = some (ty, after)) :
    ∃ text, chars = text.toList ++ after ∧ ty.ResultSpelledBy text := by
  obtain ⟨rfl, rfl⟩ | ⟨text, rfl, spelled⟩ := eq_of_read? found
  · exact ⟨"V", rfl, resultSpelledBy_void⟩
  · exact ⟨text, rfl, spelled.result⟩

theorem parse_eq_ok {text : String} {ty : JType} :
    parse text = .ok ty ↔ read? text.toList = some (ty, []) := by
  unfold parse
  split
  · rename_i found
    simp [found]
  · rename_i notWhole
    simpa using notWhole ty

theorem IsResult.exists_parse {this : ClassHandle} {ty : JType} (result : ty.IsResult this) :
    ∃ text, ty.descriptor this = .ok text ∧ IsResultDescriptor text.toList ∧
      parse text = .ok (ty.inClass this) := by
  obtain ⟨text, printed, described, read⟩ := result.exists_descriptor
  exact ⟨text, printed, described, parse_eq_ok.mpr (by simpa using read [])⟩

/-- A type is read from its text. -/
theorem resultSpelledBy_of_parse {text : String} {ty : JType} (parsed : parse text = .ok ty) :
    ty.ResultSpelledBy text := by
  obtain ⟨own, whole, spelled⟩ := exists_resultSpelledBy_of_read? (parse_eq_ok.mp parsed)
  rw [List.append_nil] at whole
  rwa [String.toList_inj.mp whole]

end JType

theorem IsResultDescriptor.exists_spelledBy {chars : List Char}
    (described : IsResultDescriptor chars) :
    ∃ ty : JType, ty.ResultSpelledBy (String.ofList chars) := by
  obtain rfl | field := described
  · exact ⟨.void, JType.resultSpelledBy_void⟩
  · obtain ⟨ty, spelled⟩ := field.exists_spelledBy
    exact ⟨ty, spelled.result⟩

/-- The texts of types are the result descriptors. -/
theorem JType.exists_parse_iff {text : String} :
    (∃ ty, JType.parse text = .ok ty) ↔ IsResultDescriptor text.toList := by
  constructor
  · rintro ⟨ty, parsed⟩
    obtain ⟨result, printed⟩ := JType.resultSpelledBy_of_parse parsed (.unnamed "")
    obtain ⟨own, printedOwn, described, -⟩ := result.exists_parse
    rwa [Except.ok.inj (printed.symm.trans printedOwn)]
  · intro described
    obtain ⟨ty, spelled⟩ := described.exists_spelledBy
    obtain ⟨result, printed⟩ := spelled (.unnamed "")
    obtain ⟨own, printedOwn, -, parsed⟩ := result.exists_parse
    rw [String.ofList_toList] at printed
    rw [← Except.ok.inj (printed.symm.trans printedOwn)] at parsed
    exact ⟨_, parsed⟩

namespace Signature

theorem parse_eq_ok {text : String} {sig : Signature} :
    parse text = .ok sig ↔
      ∃ rest after, text.toList = '(' :: rest ∧ readParams? rest = some (sig.params, after) ∧
        JType.read? after = some (sig.result, []) := by
  constructor
  · intro parsed
    unfold parse at parsed
    split at parsed
    · rename_i rest whole
      dsimp only at parsed
      split at parsed
      · rename_i found
        obtain rfl := Except.ok.inj parsed
        obtain ⟨⟨params, after⟩, readParams, found⟩ := Option.bind_eq_some_iff.mp found
        obtain ⟨⟨result, behind⟩, readResult, found⟩ := Option.bind_eq_some_iff.mp found
        cases behind with
        | nil =>
            obtain rfl := Option.some.inj found
            exact ⟨rest, after, whole, readParams, readResult⟩
        | cons => contradiction
      · contradiction
    · contradiction
  · rintro ⟨rest, after, whole, readParams, readResult⟩
    simp [parse, whole, readParams, readResult]

/-- A signature whose types can be written has a text, and this reads back. -/
theorem IsDescribable.exists_parse {this : ClassHandle} {sig : Signature}
    (describable : sig.IsDescribable this) :
    ∃ text, sig.descriptor this = .ok text ∧ IsMethodDescriptor text.toList ∧
      parse text = .ok (sig.inClass this) := by
  obtain ⟨params, printedParams, describedParams, readParams⟩ :=
    exists_paramDescriptors describable.1
  obtain ⟨result, printedResult, describedResult, readResult⟩ := describable.2.exists_descriptor
  refine ⟨"(" ++ params ++ ")" ++ result, ?_, ?_, ?_⟩
  · rw [descriptor, printedParams, printedResult]
    rfl
  · exact ⟨params.toList, result.toList, describedParams, describedResult, by simp⟩
  · refine parse_eq_ok.mpr ⟨params.toList ++ ')' :: result.toList, result.toList, by simp,
      readParams result.toList, ?_⟩
    simpa [inClass] using readResult []

/-- The signature can be written and has the text `text` in every class. -/
def SpelledBy (sig : Signature) (text : String) : Prop :=
  ∀ this, sig.IsDescribable this ∧ sig.descriptor this = .ok text

theorem spelledBy {params : List JType} {result : JType} {paramText resultText : String}
    (spelled : ParamsSpelledBy params paramText) (ends : result.ResultSpelledBy resultText) :
    SpelledBy { params, result } ("(" ++ paramText ++ ")" ++ resultText) := by
  intro this
  obtain ⟨fields, printed⟩ := spelled this
  obtain ⟨isResult, printedResult⟩ := ends this
  refine ⟨⟨fields, isResult⟩, ?_⟩
  rw [descriptor, printed, printedResult]
  rfl

/-- A signature is read from its text. -/
theorem spelledBy_of_parse {text : String} {sig : Signature} (parsed : parse text = .ok sig) :
    sig.SpelledBy text := by
  obtain ⟨rest, after, whole, readParams, readResult⟩ := parse_eq_ok.mp parsed
  obtain ⟨paramText, rfl, spelled⟩ := eq_of_readParams? readParams
  obtain ⟨resultText, rfl, ends⟩ := JType.exists_resultSpelledBy_of_read? readResult
  have text_eq : text = "(" ++ paramText ++ ")" ++ resultText :=
    String.toList_inj.mp (by simp [whole])
  rw [text_eq]
  exact Signature.spelledBy spelled ends

end Signature

theorem IsMethodDescriptor.exists_spelledBy {chars : List Char}
    (described : IsMethodDescriptor chars) :
    ∃ sig : Signature, sig.SpelledBy (String.ofList chars) := by
  obtain ⟨params, result, describedParams, describedResult, rfl⟩ := described
  obtain ⟨types, spelled⟩ := describedParams.exists_spelledBy
  obtain ⟨ty, ends⟩ := describedResult.exists_spelledBy
  have text_eq : String.ofList ('(' :: (params ++ ')' :: result)) =
      "(" ++ String.ofList params ++ ")" ++ String.ofList result :=
    String.toList_inj.mp (by simp)
  exact ⟨_, text_eq ▸ Signature.spelledBy spelled ends⟩

/-- The texts of signatures are the method descriptors. -/
theorem Signature.exists_parse_iff {text : String} :
    (∃ sig, Signature.parse text = .ok sig) ↔ IsMethodDescriptor text.toList := by
  constructor
  · rintro ⟨sig, parsed⟩
    obtain ⟨describable, printed⟩ := Signature.spelledBy_of_parse parsed (.unnamed "")
    obtain ⟨own, printedOwn, described, -⟩ := describable.exists_parse
    rwa [Except.ok.inj (printed.symm.trans printedOwn)]
  · intro described
    obtain ⟨sig, spelled⟩ := described.exists_spelledBy
    obtain ⟨describable, printed⟩ := spelled (.unnamed "")
    obtain ⟨own, printedOwn, -, parsed⟩ := describable.exists_parse
    rw [String.ofList_toList] at printed
    rw [← Except.ok.inj (printed.symm.trans printedOwn)] at parsed
    exact ⟨_, parsed⟩

/-- A text is read as a type, or as a method signature, exactly when the
grammar has it, and what is read is printed as this text in every class.  Every
type and every signature that can be written in the class `this` is printed, and
the text is read as the same with `this` in place of the class under
construction. -/
theorem parse_descriptor_inverse (this : ClassHandle) :
    (∀ text, (∃ ty, JType.parse text = .ok ty) ↔ IsResultDescriptor text.toList) ∧
      (∀ text (ty : JType), JType.parse text = .ok ty → ty.descriptor this = .ok text) ∧
      (∀ ty : JType, ty.IsResult this →
        ∃ text, ty.descriptor this = .ok text ∧ JType.parse text = .ok (ty.inClass this)) ∧
      (∀ text, (∃ sig, Signature.parse text = .ok sig) ↔ IsMethodDescriptor text.toList) ∧
      (∀ text (sig : Signature), Signature.parse text = .ok sig →
        sig.descriptor this = .ok text) ∧
      (∀ sig : Signature, sig.IsDescribable this →
        ∃ text, sig.descriptor this = .ok text ∧
          Signature.parse text = .ok (sig.inClass this)) := by
  refine ⟨fun text => JType.exists_parse_iff, fun text ty parsed => ?_, fun ty result => ?_,
    fun text => Signature.exists_parse_iff, fun text sig parsed => ?_, fun sig describable => ?_⟩
  · exact (JType.resultSpelledBy_of_parse parsed this).2
  · obtain ⟨text, printed, -, parsed⟩ := result.exists_parse
    exact ⟨text, printed, parsed⟩
  · exact (Signature.spelledBy_of_parse parsed this).2
  · obtain ⟨text, printed, -, parsed⟩ := describable.exists_parse
    exact ⟨text, printed, parsed⟩

namespace Sample

/-- A class that is named while its methods are written. -/
def shape : ClassHandle :=
  .named "demo.Shape" "java.lang.Object"

/-- Two parameters and a result that mention the class under construction. -/
def shapeCopy : Signature where
  params := [.array (.array .self), .long, .string]
  result := .self

theorem isClassName_shape : IsClassName "demo/Shape".toList :=
  ⟨by decide, by decide, by decide⟩

theorem isField_self_shape : JType.self.IsField shape :=
  ⟨"demo/Shape", by decide +kernel, isClassName_shape⟩

theorem isDescribable_shapeCopy : shapeCopy.IsDescribable shape := by
  refine ⟨?_, .inr isField_self_shape⟩
  simp only [shapeCopy, List.forall_mem_cons]
  exact ⟨isField_self_shape, trivial, ⟨by decide, by decide, by decide⟩, by simp⟩

/-- The signature is written with the name of the class and read with its type;
the text of an array of the class is printed again in any class. -/
theorem shapeCopy_parse_descriptor :
    (shapeCopy.IsDescribable shape ∧
      ∃ text, shapeCopy.descriptor shape = .ok text ∧
        Signature.parse text = .ok (shapeCopy.inClass shape)) ∧
    (JType.self.IsResult shape ∧
      ∃ text, JType.self.descriptor shape = .ok text ∧
        JType.parse text = .ok (JType.self.inClass shape)) ∧
    JType.parse "[Ldemo/Shape;" = .ok (.array (.cls "demo/Shape")) ∧
    (JType.array (.cls "demo/Shape")).descriptor shape = .ok "[Ldemo/Shape;" ∧
    Signature.parse "(J[[I)V" = .ok ⟨[.long, .array (.array .int)], .void⟩ ∧
    Signature.descriptor shape ⟨[.long, .array (.array .int)], .void⟩ = .ok "(J[[I)V" := by
  have inverse := parse_descriptor_inverse shape
  have arrayRead : JType.parse "[Ldemo/Shape;" = .ok (.array (.cls "demo/Shape")) := by
    decide +kernel
  have methodRead : Signature.parse "(J[[I)V" = .ok ⟨[.long, .array (.array .int)], .void⟩ := by
    decide +kernel
  exact ⟨⟨isDescribable_shapeCopy, inverse.2.2.2.2.2 _ isDescribable_shapeCopy⟩,
    ⟨.inr isField_self_shape, inverse.2.2.1 _ (.inr isField_self_shape)⟩,
    arrayRead, inverse.2.1 _ _ arrayRead, methodRead, inverse.2.2.2.2.1 _ _ methodRead⟩

end Sample

end JvmAssembler
