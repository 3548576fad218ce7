import XmlRecords.Proofs.Lexing
import XmlRecords.Proofs.ModuleClosure
import XmlRecords.Record.Access

/-!
The classes in generated source, as it is read, against the record types of the bound schema: whether they
offer the same names, documentation and annotations, and the same accessors, which refuse an absent field in
the same words.
-/

set_option autoImplicit false
set_option relaxedAutoImplicit false

namespace XmlRecords

open Schema
open BoundSchema
open SourceText

variable {s : Schema} {enumerations : List (Label × Enumeration)}

/-! ### Annotations -/

namespace ModuleSource

theorem print_itemType {type : DeclaredType} {item : List Piece} {codec : Codec}
    {name : TypeId → Label} {ids : List TypeId} (checked : s.Checked)
    (bound : s.enumerations.mapM bindEnumeration = .ok enumerations)
    (among : type.Among ids s.enumerations) (isItem : itemType s type = .ok item)
    (hasCodec : codecOf (enumerationNamed? enumerations) type name = .ok codec) :
    printPieces item = codec.annotation := by
  induction type generalizing item codec with
  | primitive p =>
    obtain rfl := Except.ok.inj isItem
    obtain rfl := Except.ok.inj hasCodec
    cases p <;> rfl
  | enumerated e =>
    rw [codecOf, enumerationNamed?_eq bound, checked.enumeratedNamed? among] at hasCodec
    obtain rfl := Except.ok.inj hasCodec
    simp only [itemType, bind_eq_ok_iff, pure, Except.pure, Except.ok.injEq, classNameOf_eq_ok_iff]
      at isItem
    obtain ⟨_, ⟨text, isName, rfl⟩, rfl⟩ := isItem
    rw [printPieces_cons, printPieces_nil, String.append_empty, Codec.annotation, Enumerated.bound,
      Enumerated.className, isName, Json.shown, Piece.print]
  | list inner ih =>
    rw [codecOf] at hasCodec
    obtain ⟨itemCodec, hasItem, rfl⟩ := map_eq_ok_iff.mp hasCodec
    simp only [itemType, bind_eq_ok_iff, pure, Except.pure, Except.ok.injEq] at isItem
    obtain ⟨pieces, isPieces, rfl⟩ := isItem
    rw [List.cons_append, printPieces_cons, printPieces_append, printPieces_cons, printPieces_nil,
      ih among isPieces hasItem, String.append_empty, Codec.annotation, Piece.print, Piece.print,
      String.append_assoc]
  | complex id => cases hasCodec

/-- A field in generated source and a field of a record type show alike. -/
structure FieldSource.Agrees (f : FieldSource) (field : Field) : Prop where
  key : f.key = field.key
  item : printPieces f.item = field.itemAnnotation

theorem FieldSource.Agrees.annotation_eq {f : FieldSource} {field : Field} (agrees : f.Agrees field) :
    printPieces f.annotation = field.annotation := by
  unfold FieldSource.annotation Field.annotation FieldSource.occurrence
  rw [agrees.key]
  cases field.key.occurrence with
  | once => exact agrees.item
  | optional =>
    rw [printPieces_append, printPieces_cons, printPieces_nil, String.append_empty, agrees.item,
      Piece.print]
  | repeated =>
    rw [List.cons_append, printPieces_cons, printPieces_append, printPieces_cons, printPieces_nil,
      String.append_empty, agrees.item, Piece.print, Piece.print, String.append_assoc]

theorem agrees_attribute {table : CodecTable} {a : Schema.Attribute} {f : FieldSource} {field : Field}
    {ids : List TypeId} (checked : s.Checked)
    (bound : s.enumerations.mapM bindEnumeration = .ok enumerations)
    (among : a.type.Among ids s.enumerations) (shows : f.ShowsAttribute s table a)
    (isField : OfAttribute s enumerations a field) : f.Agrees field := by
  cases isField with
  | @mk codec default name isName hasCodec _ =>
    have xmlName : f.key.xmlName = name := Json.text.inj (shows.xmlName.symm.trans isName)
    exact ⟨by rw [shows.key, xmlName, Field.key],
      print_itemType checked bound among shows.item hasCodec⟩

theorem agrees_element {table : CodecTable} {e : Schema.Element} {f : FieldSource} {field : Field}
    {ids : List TypeId} {bindings : List (ComplexType × RecordType)} (checked : s.Checked)
    (bound : s.enumerations.mapM bindEnumeration = .ok enumerations)
    (among : e.type.Among ids s.enumerations)
    (classNames : ∀ binding ∈ bindings, binding.2.className = binding.1.className)
    (shows : f.ShowsElement s table e) (isField : OfElement s enumerations bindings e field) :
    f.Agrees field := by
  have item := shows.item
  cases isField with
  | @simple codec name _ isName hasCodec =>
    have xmlName : f.key.xmlName = name := Json.text.inj (shows.xmlName.symm.trans isName)
    exact ⟨by rw [shows.key, xmlName, Field.key], print_itemType checked bound among item hasCodec⟩
  | @nested id u inner name isComplex known member isName =>
    have xmlName : f.key.xmlName = name := Json.text.inj (shows.xmlName.symm.trans isName)
    refine ⟨by rw [shows.key, xmlName, Field.key], ?_⟩
    rw [isComplex, itemType, known, Option.map_some, Option.getD_some] at item
    simp only [bind_eq_ok_iff, pure, Except.pure, Except.ok.injEq, classNameOf_eq_ok_iff] at item
    obtain ⟨_, ⟨text, isText, rfl⟩, isItem⟩ := item
    rw [← isItem, printPieces_cons, printPieces_nil, String.append_empty, Piece.print,
      Field.itemAnnotation, classNames _ member, ComplexType.className, isText, Json.shown]

/-! ### Accessors -/

def FieldSource.method (record : String) (f : FieldSource) : Accessor → Method
  | .has => f.hasAccessor
  | .get => f.getAccessor record
  | .first => f.firstAccessor

theorem accessors_eq (record : String) (f : FieldSource) :
    f.accessors record = f.key.accessors.map fun entry => f.method record entry.2 := by
  unfold FieldSource.accessors FieldSource.isRepeated FieldSource.occurrence FieldKey.accessors
  cases f.key.occurrence <;> rfl

theorem name_of_method {record : String} {f : FieldSource} {entry : String × Accessor}
    (member : entry ∈ f.key.accessors) : (f.method record entry.2).name = entry.1 := by
  unfold FieldKey.accessors at member
  rcases List.mem_append.mp member with always | repeated
  · rcases List.mem_pair.mp always with rfl | rfl
    · rfl
    · simp only [FieldSource.method, FieldSource.getAccessor]
      split <;> rfl
  · split at repeated
    · rw [List.mem_singleton.mp repeated]
      rfl
    · cases repeated

theorem isSmall_method (record : String) (f : FieldSource) (accessor : Accessor) :
    ∃ start ∈ ["has_", "get_", "get_first_"], (f.method record accessor).name = start ++ f.name := by
  cases accessor with
  | has => exact ⟨"has_", by simp, rfl⟩
  | get =>
    refine ⟨"get_", by simp, ?_⟩
    simp only [FieldSource.method, FieldSource.getAccessor]
    split <;> rfl
  | first => exact ⟨"get_first_", by simp, rfl⟩

/-- A class and a record type of one name and with the same fields in order. -/
structure Corresponds (c : RecordClass) (r : RecordType) : Prop where
  className : c.className = r.className
  name : c.name = r.name
  fields : List.Forall₂ FieldSource.Agrees c.fields r.fields

/-! ### What a class offers -/

/-- An annotation as it stands for a text: with its words as they are read. -/
def readToken (read : String → String) : Token → Token
  | .word text => .word (read text)
  | token => token

/-- An annotated name in a class is that of a field, and the annotation is the text of the field's. -/
def Annotates (read : String → String) (own : String) (entry : String × List Token) (field : Field) : Prop :=
  inClass read own entry.1 = field.key.name ∧
    tokens? (field.annotation ++ "\n") = some (.line 0 :: entry.2.map (readToken read))

/-- A definition in a class serves an accessor of a record type: it has its name, and the getter of an
optional field refuses what is absent in the same words. -/
structure Serves (read : String → String) (own : String) (r : RecordType) (d : Block)
    (entry : String × Accessor × Slot) : Prop where
  name : d.functionName?.map (inClass read own) = some entry.1
  absent : entry.2.1 = .get → entry.2.2.occurrence = .optional → ∃ record field,
    Value.access r.layout.name entry.2.2 .get .absent = .error (.notPresent record field) ∧
      d.body = (FieldSource.absentLines record field).map (shift 8)

/-- A class statement offers what a record type does: the class name as it is read, the documentation, the
annotations in order, the accessors in order, of which later ones take over a name, and no other methods that
are called like accessors. -/
structure Offers (read : String → String) (own : String) (b : Block) (r : RecordType) : Prop where
  className : b.className? = some own ∧ read own = r.className
  doc : b.inner.head?.bind Block.doc? = some (r.doc.toList.map Char.toNat)
  annotations : List.Forall₂ (Annotates read own) (b.inner.filterMap Block.annotation?) r.fields
  accessors : ∃ served others, b.inner.filter (·.functionName?.isSome) = served ++ others ∧
    List.Forall₂ (Serves read own r) served r.layout.accessors ∧
    others.filterMap Block.functionName? = ["read", "write"]
  methods : ∀ name, ("has_".toList <+: name.toList ∨ "get_".toList <+: name.toList) →
    (name ∈ (b.inner.filterMap Block.functionName?).map (inClass read own) ↔ name ∈ r.layout.methodNames)

/-- The names of a record type come through source text: its class and those in its annotations are read as
they are, the documentation has no return, which is read as a line feed, and no field is private to the
class. -/
structure ComesThrough (read : String → String) (r : RecordType) : Prop where
  className : read r.className = r.className
  doc : '\r' ∉ r.name.toList
  fields : ∀ field ∈ r.fields, isPrivate field.key.name = false
  annotations : ∀ field ∈ r.fields, ∀ tokens, tokens? (field.annotation ++ "\n") = some (.line 0 :: tokens) →
    ∀ word ∈ wordsOf tokens, read word = word

theorem map_readToken_eq_iff {read : String → String} {tokens : List Token} :
    tokens.map (readToken read) = tokens ↔ ∀ word ∈ wordsOf tokens, read word = word := by
  induction tokens with
  | nil => simp [wordsOf]
  | cons token tokens ih =>
    have shape : wordsOf (token :: tokens) = wordsOf [token] ++ wordsOf tokens := by
      rw [wordsOf, ← List.singleton_append, List.filterMap_append]
      rfl
    rw [List.map_cons, List.cons.injEq, ih, shape, List.forall_mem_append]
    refine and_congr_left' ?_
    cases token <;> simp [readToken, wordsOf]

theorem docPoints_eq_iff {text : String} : docPoints text = text.toList.map Char.toNat ↔ '\r' ∉ text.toList := by
  have injective : Function.Injective Char.toNat := fun c d same => Char.toNat_inj.mp same
  rw [docPoints, (List.map_injective_iff.mpr injective).eq_iff]
  constructor
  · intro same
    rw [← same]
    exact Xml.return_not_mem_normalizeLines false _
  · intro plain
    simpa [Xml.normalizeLines] using Xml.normalizeLines_append plain []

theorem forall₂_iff_forall_mem {α β : Type} {R Q : α → β → Prop} {P : β → Prop} {xs : List α} {ys : List β}
    (related : List.Forall₂ R xs ys) (each : ∀ x y, R x y → (Q x y ↔ P y)) :
    List.Forall₂ Q xs ys ↔ ∀ y ∈ ys, P y := by
  induction related with
  | nil => simp
  | @cons x y xs ys here _ ih => rw [List.forall₂_cons, List.forall_mem_cons, each x y here, ih]

namespace Corresponds

variable {c : RecordClass} {r : RecordType} {u : Uses} {read : String → String}

theorem doc (h : Corresponds c r) : c.doc = r.doc :=
  congrArg (fun name => s!"Record for complex type '{name}'.") h.name

theorem doc_iff (h : Corresponds c r) (worded : c.Worded u) :
    c.classBlock.inner.head?.bind Block.doc? = some (r.doc.toList.map Char.toNat) ↔ '\r' ∉ r.name.toList := by
  have isDoc : c.classBlock.inner.head?.bind Block.doc? = some (docPoints c.doc) := by
    rw [RecordClass.inner_classBlock worded]
    rfl
  have within : '\r' ∉ r.doc.toList ↔ '\r' ∉ r.name.toList := by
    have shape : r.doc = "Record for complex type '" ++ r.name ++ "'." := rfl
    have before : '\r' ∉ "Record for complex type '".toList := by decide
    have after : '\r' ∉ "'.".toList := by decide
    rw [shape, String.toList_append, String.toList_append, List.mem_append, List.mem_append, or_iff_left after,
      or_iff_right before]
  rw [isDoc, h.doc, Option.some.injEq, docPoints_eq_iff, within]

/-- Fields that show alike annotate alike if and only if the name is not private and the words are read as they
are. -/
theorem annotates_iff {f : FieldSource} {field : Field} {own : String} (ascii : KeepsAscii read)
    (start : own.toList.head? ≠ some '_') (nonempty : own.toList ≠ []) (kept : read own = own) (worded : f.Worded u)
    (agrees : f.Agrees field) :
    Annotates read own (f.name, FieldSource.annotationTokens f.occurrence ((rowTokens? f.item).getD [])) field ↔
      isPrivate field.key.name = false ∧ ∀ tokens,
        tokens? (field.annotation ++ "\n") = some (.line 0 :: tokens) → ∀ word ∈ wordsOf tokens, read word = word := by
  obtain ⟨tokens, isItem⟩ := worded.item
  have isText := tokens?_printPieces (FieldSource.beginsRow_annotation worded.begins)
    (FieldSource.phrase_annotation isItem).row
  have name : f.name = field.key.name := by rw [FieldSource.name, agrees.key]
  have isAscii : IsAscii field.key.name :=
    fun c member => Identifier.toNat_lt_of_isWordChar (worded.name.word c (name ▸ member))
  rw [agrees.annotation_eq] at isText
  rw [Annotates, isText, isItem.row, Option.getD_some, name, inClass, kept, ascii _ isAscii,
    mangle_eq_self_iff start nonempty]
  simp only [Option.some.injEq, List.cons.injEq, true_and, forall_eq', ← map_readToken_eq_iff]
  exact and_congr_right' eq_comm

theorem accessors (h : Corresponds c r) : List.Forall₂ (fun m entry => m.name = entry.1 ∧
    ∃ f ∈ c.fields, f.key = entry.2.2.toFieldKey ∧ m = f.method c.name entry.2.1)
    c.accessors r.layout.accessors := by
  have inside : List.Forall₂ (fun f field => f ∈ c.fields ∧ f.Agrees field) c.fields r.fields :=
    forall₂_imp_mem h.fields fun f member field agrees => ⟨member, agrees⟩
  have slots : r.layout.accessors = r.fields.flatMap fun field =>
      field.key.accessors.map fun entry => (entry.1, entry.2, field.slot) := by
    rw [Layout.accessors, RecordType.layout, List.flatMap_map]
    rfl
  rw [RecordClass.accessors, slots]
  refine List.rel_flatMap inside fun f field both => ?_
  obtain ⟨member, agrees⟩ := both
  rw [accessors_eq, ← agrees.key, List.forall₂_map_left_iff, List.forall₂_map_right_iff,
    List.forall₂_same]
  exact fun entry own => ⟨name_of_method own, f, member, agrees.key, rfl⟩

/-- The definition of an accessor in a class serves the accessor of the record type. -/
theorem serves (h : Corresponds c r) (worded : c.Worded u) (ascii : KeepsAscii read) {own : String} {m : Method}
    {entry : String × Accessor × Slot} (isName : m.name = entry.1) {f : FieldSource}
    (isField : f ∈ c.fields) (key : f.key = entry.2.2.toFieldKey) (isOwn : m = f.method c.name entry.2.1) :
    Serves read own r ((definitionBlock m).shift 4) entry := by
  have wordedField := worded.fields f isField
  refine ⟨?_, fun isGet optional => ⟨r.name, f.name, ?_, ?_⟩⟩
  · obtain ⟨start, among, isStart⟩ := isSmall_method c.name f entry.2.1
    rw [← isOwn, isName] at isStart
    have fixed : ∀ start ∈ ["has_", "get_", "get_first_"], start.toList ≠ [] ∧
        start.toList.head? ≠ some '_' ∧ ∀ c ∈ start.toList, Identifier.isWordChar c = true := by
      simp only [List.forall_mem_cons]
      exact ⟨⟨by decide, by decide, List.all_eq_true.mp (by decide)⟩,
        ⟨by decide, by decide, List.all_eq_true.mp (by decide)⟩,
        ⟨by decide, by decide, List.all_eq_true.mp (by decide)⟩, List.forall_mem_nil _⟩
    obtain ⟨nonempty, small, word⟩ := fixed start among
    -- The name of an accessor is small and made of words, so it is read as it is in every class.
    have isAscii : IsAscii entry.1 := fun d member => Identifier.toNat_lt_of_isWordChar <| by
      rw [isStart, String.toList_append, List.mem_append] at member
      exact member.elim (word d) (wordedField.name.word d)
    have free : isPrivate entry.1 = false := isPrivate_eq_false <| by
      rw [isStart, String.toList_append, List.head?_append_of_ne_nil _ nonempty]
      exact small
    show some (inClass read own m.name) = some entry.1
    rw [isName, inClass, ascii _ isAscii, mangle_eq_self free]
  · have slotName : f.name = entry.2.2.name := congrArg FieldKey.name key
    simp only [Value.access, optional, slotName]
    rfl
  · have occurrence : f.occurrence = .optional := (congrArg FieldKey.occurrence key).trans optional
    have body := (FieldSource.reads_absent wordedField c.name occurrence).1.eq
    have twice : shift 4 ∘ shift 4 = shift 8 := funext fun l => by simp [shift, Nat.add_assoc]
    rw [isGet] at isOwn
    rw [isOwn, ← h.name, ← twice, ← List.map_map, ← body]
    rfl

theorem annotations_iff (h : Corresponds c r) (worded : c.Worded u) (ascii : KeepsAscii read)
    (isClass : IsClassName c.className) (kept : read c.className = c.className) :
    List.Forall₂ (Annotates read c.className) (c.classBlock.inner.filterMap Block.annotation?) r.fields ↔
      ∀ field ∈ r.fields, isPrivate field.key.name = false ∧ ∀ tokens,
        tokens? (field.annotation ++ "\n") = some (.line 0 :: tokens) → ∀ word ∈ wordsOf tokens, read word = word := by
  obtain ⟨⟨d, first, _⟩, _, _⟩ := isClass.isName
  have nonempty : c.className.toList ≠ [] := by
    rintro empty
    rw [empty] at first
    cases first
  have agree := forall₂_imp_mem h.fields fun f member field agrees => And.intro member agrees
  rw [RecordClass.annotation?_inner worded, List.forall₂_map_left_iff]
  exact forall₂_iff_forall_mem agree fun f field both =>
    annotates_iff ascii isClass.head?_ne nonempty kept (worded.fields f both.1) both.2

theorem served (h : Corresponds c r) (worded : c.Worded u) (ascii : KeepsAscii read) (own : String) :
    ∃ served others, c.classBlock.inner.filter (·.functionName?.isSome) = served ++ others ∧
      List.Forall₂ (Serves read own r) served r.layout.accessors ∧
      others.filterMap Block.functionName? = ["read", "write"] := by
  refine ⟨c.accessors.map fun m => (definitionBlock m).shift 4,
    [c.readMethod, c.writeMethod].map fun m => (definitionBlock m).shift 4, ?_, ?_, rfl⟩
  · rw [RecordClass.definitions_inner worded, RecordClass.methods, List.map_append]
  · rw [List.forall₂_map_left_iff]
    exact h.accessors.imp fun m entry ⟨isName, f, isField, key, isOwn⟩ =>
      h.serves worded ascii isName isField key isOwn

theorem methods (h : Corresponds c r) (worded : c.Worded u) (ascii : KeepsAscii read) (own name : String)
    (accessor : "has_".toList <+: name.toList ∨ "get_".toList <+: name.toList) :
    name ∈ (c.classBlock.inner.filterMap Block.functionName?).map (inClass read own) ↔
      name ∈ r.layout.methodNames := by
  obtain ⟨served, others, split, serve, isOthers⟩ := h.served worded ascii own
  have names : (served.filterMap Block.functionName?).map (inClass read own) = r.layout.accessors.map (·.1) := by
    rw [List.map_filterMap]
    clear split
    generalize r.layout.accessors = entries at serve ⊢
    induction serve with
    | nil => rfl
    | cons here _ ih => simp only [List.filterMap_cons, here.name, ih, List.map_cons]
  have still : ["read", "write"].map (inClass read own) = ["read", "write"] := by
    have plain : ∀ name ∈ ["read", "write"], IsAscii name ∧ isPrivate name = false := by decide
    refine map_read_eq fun name member => ?_
    obtain ⟨isAscii, free⟩ := plain name member
    rw [inClass, ascii name isAscii, mangle_eq_self free]
  -- The other two methods are not called like accessors.
  have apart : name ∉ ["read", "write"].map (inClass read own) := by
    have other : ∀ own ∈ ["read", "write"], ¬ ("has_".toList <+: own.toList ∨ "get_".toList <+: own.toList) := by
      decide
    rw [still]
    exact fun member => other name member accessor
  rw [← filterMap_filter_isSome, split, List.filterMap_append, isOthers, List.map_append, List.mem_append,
    or_iff_left apart, names, Layout.methodNames, (List.mergeSort_perm _ _).mem_iff, List.mem_eraseDups]

theorem offers_iff (h : Corresponds c r) (worded : c.Worded u) (ascii : KeepsAscii read)
    (isClass : IsClassName c.className) :
    Offers read c.className c.classBlock r ↔ ComesThrough read r := by
  have isDoc := h.doc_iff worded
  have annotations := h.annotations_iff worded ascii isClass
  constructor
  · rintro ⟨⟨_, className⟩, doc, annotated, _, _⟩
    have each := (annotations (className.trans h.className.symm)).mp annotated
    exact ⟨h.className ▸ className, isDoc.mp doc, fun field member => (each field member).1,
      fun field member => (each field member).2⟩
  · rintro ⟨className, doc, fields, words⟩
    rw [← h.className] at className
    exact ⟨⟨rfl, className.trans h.className⟩, isDoc.mpr doc,
      (annotations className).mpr fun field member => ⟨fields field member, words field member⟩,
      h.served worded ascii _, h.methods worded ascii _⟩

end Corresponds

/-! ### Generated and bound types -/

theorem className_of_describes {bindings : List (ComplexType × RecordType)} {t : ComplexType}
    {r : RecordType} (describes : Describes s enumerations bindings t r) :
    r.className = t.className := by
  obtain ⟨name, _, _, isName, rfl, _⟩ := describes
  rw [RecordType.className, ComplexType.className, isName, Json.shown]

theorem corresponds_of_describes {bindings : List (ComplexType × RecordType)} {t : ComplexType}
    {table : CodecTable} {c : RecordClass} {r : RecordType} (checked : s.Checked) (closed : s.Closed)
    (bound : s.enumerations.mapM bindEnumeration = .ok enumerations) (declared : t ∈ s.declared)
    (classNames : ∀ binding ∈ bindings, binding.2.className = binding.1.className)
    (ofType : c.Of s table t) (describes : Describes s enumerations bindings t r) :
    Corresponds c r := by
  have within := closed.types t declared
  have className := className_of_describes describes
  obtain ⟨name, attributes, elements, isName, rfl, ofAttributes, ofElements⟩ := describes
  have attributesAgree : List.Forall₂ FieldSource.Agrees c.attributes attributes := by
    have both := forall₂_comp ofType.attributes.flip
      (forall₂_imp_mem ofAttributes fun a member f isField => And.intro member isField)
    exact both.imp fun _ _ ⟨a, shows, member, isField⟩ =>
      agrees_attribute checked bound (within.attributes a member) shows isField
  have elementsAgree : List.Forall₂ FieldSource.Agrees c.elements elements := by
    have both := forall₂_comp ofType.elements.flip
      (forall₂_imp_mem ofElements fun e member f isField => And.intro member isField)
    exact both.imp fun _ _ ⟨e, shows, member, isField⟩ =>
      agrees_element checked bound (within.elements e member) classNames shows isField
  refine ⟨ofType.className.trans className.symm, ?_, List.rel_append attributesAgree elementsAgree⟩
  exact Json.text.inj (ofType.name.symm.trans isName)

theorem enumerations_of_bind {b : BoundSchema} (bound : BoundSchema.bind s = .ok b) :
    s.enumerations.mapM bindEnumeration = .ok b.enumerations := by
  unfold BoundSchema.bind at bound
  simp only [bind_eq_ok_iff, pure, Except.pure, Except.ok.injEq] at bound
  obtain ⟨_, _, enumerations, isBound, _, _, _, _, rfl⟩ := bound
  exact isBound

theorem filter_eq_singleton {α : Type} {name : α → Option String} {items : List α} {item : α} {own : String}
    (distinct : (items.filterMap name).Nodup) (member : item ∈ items) (isName : name item = some own) :
    items.filter (name · = some own) = [item] := by
  obtain ⟨before, after, rfl⟩ := List.append_of_mem member
  rw [List.filterMap_append, List.filterMap_cons_some isName, List.nodup_append, List.nodup_cons] at distinct
  obtain ⟨_, ⟨notAfter, _⟩, apart⟩ := distinct
  have early : before.filter (name · = some own) = [] := List.filter_eq_nil_iff.mpr fun other inside => by
    simp only [decide_eq_true_eq]
    exact fun same => apart own (List.mem_filterMap.mpr ⟨other, inside, same⟩) own List.mem_cons_self rfl
  have late : after.filter (name · = some own) = [] := List.filter_eq_nil_iff.mpr fun other inside => by
    simp only [decide_eq_true_eq]
    exact fun same => notAfter (List.mem_filterMap.mpr ⟨other, inside, same⟩)
  rw [List.filter_append, List.filter_cons_of_pos (by simpa using isName), early, late, List.nil_append]

/-- Each complex type has one class statement in the records module as it is read, and one record type, which
offer the same if and only if the names of the record type come through source text. -/
theorem offers_of_generate {definition : Json} {source : Label} {package : Option String} {files : List File}
    {b : BoundSchema} {read : String → String} (loaded : load definition source = .ok s)
    (generated : generate s package = .ok files) (bound : BoundSchema.bind s = .ok b)
    (named : WellNamed s ((package.map Json.text).getD s.package)) (ascii : KeepsAscii read) :
    ∃ moduleName enums records statements,
      files = [⟨moduleName ++ "_enums.py", enums⟩, ⟨moduleName ++ ".py", records⟩] ∧
      read? records = some statements ∧
      ∀ t ∈ s.declared, ∃ statement r,
        (classStatements statements).filter (·.className? = some t.className) = [statement] ∧
        recordNamed? b.records t.qualifiedName = some r ∧
        (Offers read t.className statement r ↔ ComesThrough read r) := by
  obtain ⟨readable, name, enums, _, m, _, points, path, words, rootName, root, used, table, types, classes, _, rfl,
    _, _, emitted, leads, readRecords, _⟩ := exists_statements_of_generate loaded generated named
  have closed := readable.sound.closed
  have checked := checked_of_validate readable.valid
  obtain ⟨bindings, built, covers, isBound, boundNames⟩ := exists_bindings closed checked bound
  have isClasses : classStatements (Emitted.statements points path used rootName root table classes) =
      classes.map RecordClass.classBlock := classStatements_records leads (emitted.isRootName readable) classes
  have isNames : (classes.map RecordClass.classBlock).filterMap Block.className? = classes.map (·.className) := by
    rw [List.filterMap_map, ← List.filterMap_eq_map']
    rfl
  have distinct := (emitted.classNames_perm readable).nodup_iff.mpr checked.typeClasses
  refine ⟨Identifier.module name, enums, m.print, _, rfl, readRecords, fun t declared => ?_⟩
  have isType := (emitted.types_perm closed).mem_iff.mpr declared
  obtain ⟨c, member, ofType⟩ := exists_of_forall₂_left emitted.ofTypes isType
  obtain ⟨⟨t, r⟩, isBinding, rfl⟩ := List.mem_map.mp (covers.mem_iff.mpr declared)
  obtain ⟨earlier, kept, describes⟩ := exists_describes built isBinding
  -- The class and the record type are both made from the declaration of the type.
  have corresponds : Corresponds c r := by
    refine corresponds_of_describes checked closed (enumerations_of_bind bound) declared ?_ ofType describes
    rintro ⟨u, inner⟩ inside
    obtain ⟨_, _, own⟩ := exists_describes built (kept inside)
    exact className_of_describes own
  obtain ⟨_, _, _, worded⟩ := emitted.exists_type readable member
  have isClass : IsClassName c.className := by
    rw [ofType.className]
    exact readable.isClassName (List.mem_append_right _ (List.mem_map_of_mem declared))
  refine ⟨c.classBlock, r, ?_, ?_, ?_⟩
  · rw [isClasses]
    refine filter_eq_singleton (isNames ▸ distinct) (List.mem_map_of_mem member) ?_
    exact congrArg some ofType.className
  · rw [isBound] at boundNames ⊢
    exact recordNamed?_eq_some boundNames (List.mem_map_of_mem isBinding) ofType.name
  · have same : t.className = c.className := ofType.className.symm
    rw [same]
    exact corresponds.offers_iff worded ascii isClass

theorem offers_shelf : ∃ files, generate shelfSchema none = .ok files ∧
    ∃ moduleName enums records statements,
      files = [⟨moduleName ++ "_enums.py", enums⟩, ⟨moduleName ++ ".py", records⟩] ∧
      read? records = some statements ∧
      ∀ t ∈ shelfSchema.declared, ∃ statement r,
        (classStatements statements).filter (·.className? = some t.className) = [statement] ∧
        recordNamed? shelfBound.records t.qualifiedName = some r ∧ Offers id t.className statement r := by
  obtain ⟨files, generated⟩ := exists_generate_shelf
  obtain ⟨moduleName, enums, records, statements, isFiles, isRead, each⟩ :=
    @offers_of_generate _ _ _ _ _ _ id load_shelfDefinition generated bind_shelfSchema wellNamed_shelf fun _ _ => rfl
  have through : ∀ t ∈ shelfSchema.declared, ∀ r, recordNamed? shelfBound.records t.qualifiedName = some r →
      ComesThrough id r := by
    have known : ∀ r ∈ [bookType, shelfType], '\r' ∉ r.name.toList ∧
        ∀ field ∈ r.fields, isPrivate field.key.name = false := by
      simp only [List.forall_mem_cons]
      refine ⟨⟨by decide, ?_⟩, ⟨by decide, ?_⟩, List.forall_mem_nil _⟩
      · simp only [bookType, RecordType.fields, List.forall_mem_cons]
        decide
      · simp only [shelfType, RecordType.fields, List.forall_mem_cons]
        decide
    have among : ∀ t ∈ shelfSchema.declared, ∃ r ∈ [bookType, shelfType],
        recordNamed? shelfBound.records t.qualifiedName = some r := by
      simp only [shelfSchema, List.forall_mem_cons]
      exact ⟨⟨bookType, by simp, rfl⟩, ⟨shelfType, by simp, rfl⟩, List.forall_mem_nil _⟩
    intro t declared r isRecord
    obtain ⟨_, member, same⟩ := among t declared
    obtain rfl := Option.some.inj (isRecord.symm.trans same)
    obtain ⟨plain, free⟩ := known r member
    exact ⟨rfl, plain, free, fun _ _ _ _ _ _ => rfl⟩
  refine ⟨files, generated, moduleName, enums, records, statements, isFiles, isRead, fun t declared => ?_⟩
  obtain ⟨statement, r, isStatement, isRecord, offers⟩ := each t declared
  exact ⟨statement, r, isStatement, isRecord, offers.mpr (through t declared r isRecord)⟩

def returnClass : RecordClass := ⟨"AB", "a\rb", [], []⟩

/-- The documentation of a class is not read as that of the record type, if a return is written to it. -/
theorem not_offers_return :
    load (emptyDefinition "sole" "a\rb") (.text "sole") = .ok (emptySchema "sole" "a\rb") ∧
    ∃ b enums records statements statement r, BoundSchema.bind (emptySchema "sole" "a\rb") = .ok b ∧
      generate (emptySchema "sole" "a\rb") none = .ok [⟨"sole_enums.py", enums⟩, ⟨"sole.py", records⟩] ∧
      read? records = some statements ∧ classStatements statements = [statement] ∧
      recordNamed? b.records (.text "a\rb") = some r ∧ ∀ read own, ¬ Offers read own statement r := by
  have loaded : load (emptyDefinition "sole" "a\rb") (.text "sole") = .ok (emptySchema "sole" "a\rb") := rfl
  obtain ⟨files, generated⟩ : ∃ files, generate (emptySchema "sole" "a\rb") none = .ok files :=
    exists_generate rfl rfl ⟨_, rfl⟩ ⟨_, rfl⟩
  have named : WellNamed (emptySchema "sole" "a\rb") .null :=
    ⟨by decide, by decide +kernel, .inl rfl, by decide +kernel, ⟨"sole", rfl⟩⟩
  obtain ⟨readable, name, enums, _, m, _, points, path, words, rootName, root, used, table, types, classes, isName,
    rfl, _, _, emitted, leads, readRecords, _⟩ := exists_statements_of_generate loaded generated named
  obtain rfl : "sole" = name := Json.text.inj isName
  have isModule : Identifier.module "sole" = "sole" := by decide
  rw [isModule] at generated
  obtain rfl := Except.ok.inj (emitted.order.symm.trans rfl)
  have made : recordClassesOf (emptySchema "sole" "a\rb") .empty (emptySchema "sole" "a\rb").declared =
      .ok ([returnClass], .empty) := rfl
  obtain ⟨rfl, rfl⟩ := Prod.mk.inj (Except.ok.inj (emitted.isClasses.symm.trans made))
  obtain ⟨_, _, _, worded⟩ := emitted.exists_type readable List.mem_cons_self
  have corresponds : Corresponds returnClass (.mk "AB" "a\rb" []) := ⟨rfl, rfl, .nil⟩
  refine ⟨loaded, _, enums, m.print, _, returnClass.classBlock, .mk "AB" "a\rb" [], rfl, generated,
    readRecords, classStatements_records leads (emitted.isRootName readable) _, rfl, fun read own offers => ?_⟩
  exact (corresponds.doc_iff worded).mp offers.doc (by decide)

end ModuleSource

end XmlRecords
