import XmlRecords.Proofs.EmittedModules
import XmlRecords.Proofs.Fragments
import XmlRecords.Proofs.LiteralReadBack
import XmlRecords.Proofs.Realizability

/-!
The literals of generated modules. In order they are the texts of the schema, and each denotes its text
as long as the characters lie in the basic plane: a literal is written with one escape for each UTF-16
unit, and read with one code point for each escape.
-/

set_option autoImplicit false
set_option relaxedAutoImplicit false

namespace XmlRecords

open Schema

/-! ### The texts of a schema -/

namespace Schema

def tagTexts (s : Schema) : List String :=
  s.enumerations.flatMap fun e => e.values.flatMap fun value => [Identifier.tag value, value]

/-- What the getter of a field that may be absent names when it fails. -/
def absentTexts (record name : Label) : Occurrence → List String
  | .optional => [record.shown, fieldOf name]
  | _ => []

def filledTexts (default : Option String) : Occurrence → List String
  | .optional => []
  | _ => default.toList

/-- The texts in the class of a complex type: its name, those of its getters, those that are read and
those that are written. -/
def ComplexType.texts (t : ComplexType) : List String :=
  let attributes := t.attributes.map (·.name.shown)
  let elements := t.elements.map (·.name.shown)
  let getters := t.attributes.flatMap (fun a => absentTexts t.qualifiedName a.name a.occurrence) ++
    t.elements.flatMap fun e => absentTexts t.qualifiedName e.name e.occurrence
  let reads := t.attributes.flatMap (fun a => a.name.shown :: filledTexts a.default a.occurrence) ++ elements
  [t.qualifiedName.shown] ++ getters ++ reads ++ (attributes ++ elements)

def rootTexts (s : Schema) : List String :=
  match s.rootElement with
  | .text name => [name]
  | _ => []

end Schema

namespace ModuleSource

/-! ### What lines denote -/

/-- What the literals in a row of pieces denote, each read where it stands. -/
def denoted : List Piece → List (Option (List Nat))
  | [] => []
  | .literal text :: rest =>
    (Text.readLiteral? (printPieces (.literal text :: rest)).toList).map (·.1) :: denoted rest
  | _ :: rest => denoted rest

def denotedIn (lines : List Line) : List (Option (List Nat)) := lines.flatMap fun l => denoted l.pieces

def Denotes (m : ModuleSource) (texts : List String) : Prop :=
  denotedIn m.lines = texts.map fun text => some (text.toList.map Char.toNat)

def written (texts : List String) : List (Option (List Nat)) :=
  texts.map fun text => some (Text.writtenPoints text)

@[simp] theorem written_nil : written [] = [] := rfl

@[simp] theorem written_cons (text : String) (texts : List String) :
    written (text :: texts) = some (Text.writtenPoints text) :: written texts := rfl

@[simp] theorem written_append (first rest : List String) :
    written (first ++ rest) = written first ++ written rest := List.map_append

theorem written_flatMap {α : Type} (items : List α) (texts : α → List String) :
    written (items.flatMap texts) = items.flatMap fun item => written (texts item) :=
  List.map_flatMap

@[simp] theorem denoted_nil : denoted [] = [] := rfl

@[simp] theorem denoted_plain (text : String) (rest : List Piece) :
    denoted (.plain text :: rest) = denoted rest := rfl

@[simp] theorem denoted_name (word : String) (rest : List Piece) :
    denoted (.name word :: rest) = denoted rest := rfl

@[simp] theorem denoted_doc (text : String) (rest : List Piece) :
    denoted (.doc text :: rest) = denoted rest := rfl

@[simp] theorem denoted_codec (c : CodecName) (rest : List Piece) :
    denoted (.codec c :: rest) = denoted rest := rfl

@[simp] theorem denoted_recordClass (className : String) (rest : List Piece) :
    denoted (.recordClass className :: rest) = denoted rest := rfl

@[simp] theorem denoted_enumClass (className : String) (rest : List Piece) :
    denoted (.enumClass className :: rest) = denoted rest := rfl

theorem denoted_literal (text : String) {rest : List Piece}
    (apart : (printPieces rest).toList.head? ≠ some '"') :
    denoted (.literal text :: rest) = some (Text.writtenPoints text) :: denoted rest := by
  rw [denoted, printPieces_cons, String.toList_append, Piece.print,
    Text.readLiteral?_literal text _ apart]
  rfl

@[simp] theorem denoted_literal_last (text : String) :
    denoted [.literal text] = [some (Text.writtenPoints text)] :=
  denoted_literal text (by simp [printPieces_nil])

@[simp] theorem denoted_literal_plain (text : String) {next : String} (rest : List Piece)
    (apart : next.toList.head?.any (· != '"') = true) :
    denoted (.literal text :: .plain next :: rest) =
      some (Text.writtenPoints text) :: denoted rest := by
  refine denoted_literal text ?_
  rw [printPieces_cons, Piece.print, String.toList_append]
  cases shape : next.toList with
  | nil => simp [shape] at apart
  | cons c cs => simpa [shape] using apart

def Mute (pieces : List Piece) : Prop := ∀ p ∈ pieces, ∀ text, p ≠ .literal text

@[simp] theorem denoted_append_of_mute {first : List Piece} (mute : Mute first) (rest : List Piece) :
    denoted (first ++ rest) = denoted rest := by
  induction first with
  | nil => rfl
  | cons p first ih =>
    obtain ⟨here, below⟩ := List.forall_mem_cons.mp mute
    cases p with
    | literal text => exact absurd rfl (here text)
    | _ => exact ih below

theorem denoted_of_mute {pieces : List Piece} (mute : Mute pieces) : denoted pieces = [] := by
  simpa using denoted_append_of_mute mute []

@[simp] theorem denotedIn_nil : denotedIn [] = [] := rfl

@[simp] theorem denotedIn_cons (line : Line) (lines : List Line) :
    denotedIn (line :: lines) = denoted line.pieces ++ denotedIn lines := rfl

@[simp] theorem denotedIn_append (first rest : List Line) :
    denotedIn (first ++ rest) = denotedIn first ++ denotedIn rest := List.flatMap_append

@[simp] theorem denotedIn_flatMap {α : Type} (items : List α) (lines : α → List Line) :
    denotedIn (items.flatMap lines) = items.flatMap fun item => denotedIn (lines item) :=
  List.flatMap_assoc

@[simp] theorem denotedIn_map {α : Type} (items : List α) (line : α → Line) :
    denotedIn (items.map line) = items.flatMap fun item => denoted (line item).pieces :=
  List.flatMap_map ..

theorem denotedIn_indent (n : Nat) (lines : List Line) :
    denotedIn (lines.map (Line.indent n)) = denotedIn lines := by
  rw [denotedIn_map]
  rfl

theorem denotedIn_method {m : Method} (parameters : Mute m.parameters) (result : Mute m.result) :
    denotedIn m.lines = denotedIn m.body := by
  have plain : ∀ depth text, denoted (Line.plain depth text).pieces = [] := fun _ _ => rfl
  have result' := denoted_append_of_mute result [.plain ":"]
  rw [Method.lines, denotedIn_append, denotedIn_append, denotedIn_indent]
  simp [plain, denoted_append_of_mute parameters, result']

/-! ### Fields -/

namespace FieldSource

variable {f : FieldSource}

/-- The texts of the value of a field that a document does not supply. -/
def missingTexts (f : FieldSource) : List String :=
  match f.occurrence, f.content with
  | .optional, _ => []
  | _, .simple _ default => default.toList
  | _, .record _ => []

def getterTexts (record : String) (f : FieldSource) : List String :=
  match f.occurrence with
  | .optional => [record, f.name]
  | _ => []

theorem mute_annotation (mute : Mute f.item) : Mute f.annotation := by
  unfold annotation
  cases f.occurrence with
  | once => exact mute
  | optional => simpa [Mute, or_imp, forall_and] using mute
  | repeated => simpa [Mute, or_imp, forall_and] using mute

theorem denoted_missing (f : FieldSource) : denoted f.missing = written f.missingTexts := by
  unfold missing missingTexts
  cases f.content with
  | record className => cases f.occurrence <;> rfl
  | simple codec default => cases f.occurrence <;> cases default <;> simp (disch := decide)

theorem denoted_valueRead (f : FieldSource) (text : String) :
    denoted (f.valueRead text) = match f.content with
      | .simple .. => written f.missingTexts
      | .record _ => [] := by
  unfold valueRead
  cases f.content with
  | simple codec default => exact f.denoted_missing
  | record className => rfl

theorem denotedIn_accessors (mute : Mute f.item) (record : String) :
    denotedIn ((f.accessors record).flatMap Method.lines) = written (f.getterTexts record) := by
  have annotation := mute_annotation mute
  have parameters : Mute ["self"] := by simp [Mute]
  have has : denotedIn f.hasAccessor.lines = [] := by
    unfold hasAccessor accessor
    rw [denotedIn_method parameters (by simp [Mute])]
    cases f.occurrence <;> rfl
  have first : denotedIn f.firstAccessor.lines = [] := by
    unfold firstAccessor accessor
    rw [denotedIn_method parameters (by simpa [Mute, or_imp, forall_and] using mute)]
    rfl
  have get : denotedIn (f.getAccessor record).lines = written (f.getterTexts record) := by
    unfold getAccessor accessor getterTexts
    cases f.occurrence with
    | optional =>
      rw [denotedIn_method parameters mute]
      simp (disch := decide)
    | _ =>
      rw [denotedIn_method parameters annotation]
      rfl
  unfold accessors
  split <;> simp [has, get, first]

theorem denotedIn_attributeRead {codec : CodecName} {default : Option String}
    (simple : f.content = .simple codec default) :
    denotedIn f.attributeRead = written (f.key.xmlName :: f.missingTexts) := by
  have value := f.denoted_valueRead "raw"
  rw [simple] at value
  rw [attributeRead]
  simp (disch := decide) [value]

theorem mute_missing (none : f.missingTexts = []) : Mute f.missing := by
  unfold missingTexts at none
  unfold missing
  generalize f.occurrence = occurrence, f.content = content at none ⊢
  cases content with
  | record className => cases occurrence <;> simp [Mute]
  | simple codec default =>
    cases occurrence with
    | optional => simp [Mute]
    | _ =>
      obtain rfl := Option.toList_eq_nil_iff.mp none
      simp [Mute]

theorem mute_valueRead (none : f.missingTexts = []) (text : String) : Mute (f.valueRead text) := by
  have missing := mute_missing none
  unfold valueRead
  cases f.content with
  | simple codec default => simpa [Mute] using missing
  | record className => simp [Mute]

theorem denoted_elementStart (none : f.missingTexts = []) : denoted f.elementStart.pieces = [] := by
  have missing := denoted_of_mute (mute_missing none)
  unfold elementStart
  cases f.content with
  | simple codec default =>
    cases f.occurrence with
    | repeated => rfl
    | _ => exact missing
  | record className => cases f.occurrence <;> rfl

theorem denotedIn_childRead (none : f.missingTexts = []) (keyword : String) :
    denotedIn (f.childRead keyword) = written [f.key.xmlName] := by
  have value := denoted_append_of_mute (mute_valueRead none "text")
  have valueOnly := denoted_of_mute (mute_valueRead none "text")
  unfold childRead
  cases f.content <;> cases f.isRepeated <;>
    simp (disch := decide) [Line.plain, value, valueOnly]

theorem denotedIn_recordFill (none : f.missingTexts = []) : denotedIn f.recordFill = [] := by
  have missing := denoted_of_mute (mute_missing none)
  unfold recordFill
  cases f.occurrence with
  | once =>
    cases f.content with
    | simple codec default => rfl
    | record className => simpa [Line.plain] using missing
  | _ => rfl

theorem denotedIn_forEach (f : FieldSource) (statement : List Piece) :
    denotedIn (f.forEach statement) = denoted statement := by
  unfold forEach
  cases f.occurrence <;> simp

theorem mute_value (f : FieldSource) : Mute f.value := by
  unfold value
  split <;> simp [Mute]

theorem denotedIn_attributeWrite {codec : CodecName} {default : Option String}
    (simple : f.content = .simple codec default) :
    denotedIn f.attributeWrite = written [f.key.xmlName] := by
  unfold attributeWrite
  rw [simple]
  simp only [denotedIn_forEach]
  simp (disch := decide) [denoted_append_of_mute f.mute_value]

theorem denotedIn_elementWrite (f : FieldSource) :
    denotedIn f.elementWrite = written [f.key.xmlName] := by
  unfold elementWrite
  cases f.content with
  | simple codec default =>
    simp only [denotedIn_forEach]
    simp (disch := decide) [denoted_append_of_mute f.mute_value]
  | record className =>
    simp only [denotedIn_forEach]
    simp (disch := decide) [denoted_append_of_mute f.mute_value]

end FieldSource

/-! ### Classes -/

namespace RecordClass

variable {c : RecordClass}

/-- The texts in a class, in order: its name, those of its getters, those that are read and those that
are written. -/
def texts (c : RecordClass) : List String :=
  let names := c.elements.map (·.key.xmlName)
  [c.name] ++ c.fields.flatMap (FieldSource.getterTexts c.name) ++
    (c.attributes.flatMap (fun f => f.key.xmlName :: f.missingTexts) ++ names) ++
    (c.attributes.map (·.key.xmlName) ++ names)

/-- A class as it is made for a complex type: attributes hold simple values, elements have no default, and
annotations name types. -/
structure Simple (c : RecordClass) : Prop where
  items : ∀ f ∈ c.fields, Mute f.item
  attributes : ∀ f ∈ c.attributes, ∃ codec default, f.content = .simple codec default
  elements : ∀ f ∈ c.elements, f.missingTexts = []

theorem flatMap_written {items : List FieldSource} {lines : FieldSource → List (Option (List Nat))}
    {texts : FieldSource → List String} (each : ∀ f ∈ items, lines f = written (texts f)) :
    items.flatMap lines = written (items.flatMap texts) := by
  rw [written_flatMap]
  exact List.flatMap_congr each

theorem denotedIn_elementReads (simple : c.Simple) :
    denotedIn c.elementReads = written (c.elements.map (·.key.xmlName)) := by
  have tests : denotedIn (childReads c.elements) = written (c.elements.map (·.key.xmlName)) := by
    have none := simple.elements
    generalize c.elements = fs at none
    cases fs with
    | nil => rfl
    | cons f fs =>
      obtain ⟨first, others⟩ := List.forall_mem_cons.mp none
      have rest : denotedIn (fs.flatMap (·.childRead "elif")) = written (fs.map (·.key.xmlName)) := by
        rw [denotedIn_flatMap, List.map_eq_flatMap]
        exact flatMap_written fun f member => FieldSource.denotedIn_childRead (others f member) "elif"
      rw [childReads, denotedIn_append, rest, FieldSource.denotedIn_childRead first]
      rfl
  have starts : c.elements.flatMap (fun f => denoted f.elementStart.pieces) = [] :=
    List.flatMap_eq_nil_iff.mpr fun f member =>
      FieldSource.denoted_elementStart (simple.elements f member)
  have fills : c.elements.flatMap (fun f => denotedIn f.recordFill) = [] :=
    List.flatMap_eq_nil_iff.mpr fun f member =>
      FieldSource.denotedIn_recordFill (simple.elements f member)
  unfold elementReads
  split
  · rename_i empty
    rw [List.isEmpty_iff.mp empty]
    rfl
  · rw [denotedIn_append, denotedIn_append, denotedIn_append, denotedIn_indent, tests,
      denotedIn_flatMap, fills, denotedIn_map, starts, List.append_nil]
    rfl

theorem denotedIn_construction (c : RecordClass) : denotedIn c.construction = [] := by
  have arguments (f : FieldSource) : denoted f.argument.pieces = [] := by
    unfold FieldSource.argument
    split <;> rfl
  unfold construction
  split
  · rfl
  · simp [Line.plain, Line.indent, arguments]

theorem denotedIn_readMethod (simple : c.Simple) : denotedIn c.readMethod.lines =
    written (c.attributes.flatMap (fun f => f.key.xmlName :: f.missingTexts) ++
      c.elements.map (·.key.xmlName)) := by
  have reads : c.attributes.flatMap (fun f => denotedIn f.attributeRead) =
      written (c.attributes.flatMap fun f => f.key.xmlName :: f.missingTexts) := by
    refine flatMap_written fun f member => ?_
    obtain ⟨codec, default, content⟩ := simple.attributes f member
    exact FieldSource.denotedIn_attributeRead content
  rw [denotedIn_method (by simp [readMethod, Mute]) (by simp [readMethod, Mute]), readMethod,
    denotedIn_append, denotedIn_append, denotedIn_flatMap, reads, denotedIn_elementReads simple,
    denotedIn_construction, List.append_nil, written_append]

theorem denotedIn_writeMethod (simple : c.Simple) : denotedIn c.writeMethod.lines =
    written (c.attributes.map (·.key.xmlName) ++ c.elements.map (·.key.xmlName)) := by
  have attributes : c.attributes.flatMap (fun f => denotedIn f.attributeWrite) =
      written (c.attributes.map (·.key.xmlName)) := by
    rw [List.map_eq_flatMap]
    refine flatMap_written fun f member => ?_
    obtain ⟨codec, default, content⟩ := simple.attributes f member
    exact FieldSource.denotedIn_attributeWrite content
  have elements : c.elements.flatMap (fun f => denotedIn f.elementWrite) =
      written (c.elements.map (·.key.xmlName)) := by
    rw [List.map_eq_flatMap]
    exact flatMap_written fun f _ => f.denotedIn_elementWrite
  rw [denotedIn_method (by simp [writeMethod, Mute]) (by simp [writeMethod, Mute]), writeMethod]
  simp [Line.plain, attributes, elements]

theorem denotedIn_body (simple : c.Simple) : denotedIn c.body = written c.texts := by
  have annotations : c.annotations.flatMap (fun entry =>
      denoted (.name entry.1 :: .plain ": " :: entry.2)) = [] := by
    rw [annotations, List.flatMap_map, List.flatMap_eq_nil_iff]
    intro f member
    rw [denoted_name, denoted_plain]
    exact denoted_of_mute (FieldSource.mute_annotation (simple.items f member))
  have accessors : c.accessors.flatMap (fun m => denotedIn m.lines) =
      written (c.fields.flatMap (FieldSource.getterTexts c.name)) := by
    rw [accessors, List.flatMap_assoc]
    refine flatMap_written fun f member => ?_
    rw [← denotedIn_flatMap]
    exact FieldSource.denotedIn_accessors (simple.items f member) c.name
  have methods : denotedIn (c.methods.flatMap fun m => .blank :: m.lines) =
      c.methods.flatMap fun m => denotedIn m.lines := denotedIn_flatMap ..
  have fields : denotedIn (if c.fields.isEmpty then [] else .blank :: c.annotations.map
      fun entry => ⟨0, .name entry.1 :: .plain ": " :: entry.2⟩) = [] := by
    split
    · rfl
    · rw [denotedIn_cons, denotedIn_map]
      exact annotations
  rw [body, denotedIn_append, denotedIn_append, fields, methods, RecordClass.methods,
    List.flatMap_append, accessors, List.flatMap_cons, List.flatMap_cons, List.flatMap_nil,
    denotedIn_readMethod simple, denotedIn_writeMethod simple, texts, written_append, written_append]
  simp [Line.blank]

end RecordClass

variable {s : Schema} {table table' : CodecTable} {t : ComplexType}

theorem mute_itemType {type : DeclaredType} {item : List Piece} (isItem : itemType s type = .ok item) :
    Mute item := by
  induction type generalizing item with
  | primitive p =>
    obtain rfl := Except.ok.inj isItem
    simp [Mute]
  | enumerated e =>
    obtain ⟨className, _, isItem⟩ := bind_eq_ok_iff.mp isItem
    obtain rfl := Except.ok.inj isItem
    simp [Mute]
  | list inner ih =>
    obtain ⟨pieces, isInner, isItem⟩ := bind_eq_ok_iff.mp isItem
    obtain rfl := Except.ok.inj isItem
    simpa [Mute, or_imp, forall_and] using ih isInner
  | complex id =>
    obtain ⟨className, _, isItem⟩ := bind_eq_ok_iff.mp isItem
    obtain rfl := Except.ok.inj isItem
    simp [Mute]

theorem simple_of_recordClassOf {c : RecordClass} (emitted : recordClassOf s table t = .ok (c, table')) :
    ∀ f ∈ c.attributes, ∃ codec default, f.content = .simple codec default := by
  unfold recordClassOf at emitted
  simp only [bind_eq_ok_iff, mapM_eq_ok_iff, pure, Except.pure, Except.ok.injEq, Prod.mk.injEq]
    at emitted
  obtain ⟨_, _, _, _, _, _, attributes, ofAttributes, _, _, rfl, _⟩ := emitted
  intro f member
  obtain ⟨a, _, source⟩ := exists_of_forall₂_left ofAttributes.flip member
  unfold attributeSource at source
  simp only [bind_eq_ok_iff, pure, Except.pure, Except.ok.injEq] at source
  obtain ⟨_, _, _, _, ⟨codec, _⟩, _, rfl⟩ := source
  exact ⟨codec, a.default, rfl⟩

theorem simple_of_recordClassesOf {types : List ComplexType} {classes : List RecordClass}
    (emitted : recordClassesOf s table types = .ok (classes, table')) :
    ∀ c ∈ classes, ∀ f ∈ c.attributes, ∃ codec default, f.content = .simple codec default := by
  induction types generalizing table classes with
  | nil =>
    obtain ⟨rfl, rfl⟩ := Prod.mk.inj (Except.ok.inj emitted)
    simp
  | cons t types ih =>
    rw [recordClassesOf] at emitted
    simp only [bind_eq_ok_iff, pure, Except.pure, Except.ok.injEq, Prod.exists, Prod.mk.injEq]
      at emitted
    obtain ⟨c, between, here, others, _, rest, rfl, rfl⟩ := emitted
    exact List.forall_mem_cons.mpr ⟨simple_of_recordClassOf here, ih rest⟩

theorem flatMap_eq_of_forall₂ {α β γ : Type} {R : α → β → Prop} {f : α → List γ} {g : β → List γ}
    {xs : List α} {ys : List β} (related : List.Forall₂ R xs ys) (agree : ∀ x y, R x y → g y = f x) :
    ys.flatMap g = xs.flatMap f := by
  rw [List.flatMap_def, List.flatMap_def, map_eq_of_forall₂ related agree]

namespace FieldSource.Shows

variable {name : Label} {type : DeclaredType} {isAttribute : Bool} {occurrence : Occurrence}
  {default : Option String} {f : FieldSource}

theorem xmlName_eq (shows : f.Shows s table name type isAttribute occurrence default) :
    f.key.xmlName = name.shown := by
  rw [shows.xmlName, Json.shown]

theorem occurrence_eq (shows : f.Shows s table name type isAttribute occurrence default) :
    f.occurrence = occurrence := congrArg FieldKey.occurrence shows.key

theorem getterTexts_eq (shows : f.Shows s table name type isAttribute occurrence default)
    (record : Label) : f.getterTexts record.shown = absentTexts record name occurrence := by
  have named : f.key.name = Identifier.field f.key.xmlName := by rw [shows.key]
  have own : f.name = fieldOf name := by
    rw [FieldSource.name, named, shows.xmlName_eq, fieldOf]
  rw [getterTexts, shows.occurrence_eq, own]
  cases occurrence <;> rfl

theorem missingTexts_eq (shows : f.Shows s table name type isAttribute occurrence default) :
    f.missingTexts = filledTexts default occurrence := by
  have content := shows.content
  rw [missingTexts, shows.occurrence_eq]
  generalize f.content = held at content
  cases content with
  | simple _ _ => cases occurrence <;> rfl
  | record _ => cases occurrence <;> rfl

end FieldSource.Shows

theorem RecordClass.Of.texts_eq {c : RecordClass} (ofType : c.Of s table t) : c.texts = t.texts := by
  have name : c.name = t.qualifiedName.shown := by rw [ofType.name, Json.shown]
  have getters : c.fields.flatMap (FieldSource.getterTexts c.name) =
      t.attributes.flatMap (fun a => absentTexts t.qualifiedName a.name a.occurrence) ++
        t.elements.flatMap fun e => absentTexts t.qualifiedName e.name e.occurrence := by
    rw [fields, List.flatMap_append, name,
      flatMap_eq_of_forall₂ ofType.attributes fun a f shows => shows.getterTexts_eq t.qualifiedName,
      flatMap_eq_of_forall₂ ofType.elements fun e f shows => shows.getterTexts_eq t.qualifiedName]
  have attributes : c.attributes.map (·.key.xmlName) = t.attributes.map (·.name.shown) :=
    (map_eq_of_forall₂ ofType.attributes fun a f shows => shows.xmlName_eq).symm
  have elements : c.elements.map (·.key.xmlName) = t.elements.map (·.name.shown) :=
    (map_eq_of_forall₂ ofType.elements fun e f shows => shows.xmlName_eq).symm
  have reads : c.attributes.flatMap (fun f => f.key.xmlName :: f.missingTexts) =
      t.attributes.flatMap fun a => a.name.shown :: filledTexts a.default a.occurrence := by
    refine flatMap_eq_of_forall₂ ofType.attributes fun a f shows => ?_
    rw [shows.xmlName_eq, shows.missingTexts_eq]
  rw [texts, ComplexType.texts, getters, attributes, elements, reads, name]

theorem RecordClass.Of.simple {c : RecordClass} (ofType : c.Of s table t)
    (attributes : ∀ f ∈ c.attributes, ∃ codec default, f.content = .simple codec default) :
    c.Simple := by
  refine ⟨?_, attributes, ?_⟩
  · intro f member
    rcases List.mem_append.mp member with isAttribute | isElement
    · obtain ⟨a, _, shows⟩ := exists_of_forall₂_left ofType.attributes.flip isAttribute
      exact mute_itemType shows.item
    · obtain ⟨e, _, shows⟩ := exists_of_forall₂_left ofType.elements.flip isElement
      exact mute_itemType shows.item
  · intro f member
    obtain ⟨e, _, shows⟩ := exists_of_forall₂_left ofType.elements.flip member
    rw [FieldSource.Shows.missingTexts_eq shows]
    cases e.occurrence <;> rfl

/-! ### Modules -/

theorem denotedIn_module (m : ModuleSource) :
    denotedIn m.lines = m.declarations.flatMap fun d => denotedIn d.lines := by
  have group (g : Group) :
      denotedIn g.lines = g.declarations.flatMap fun d => denotedIn d.lines := by
    have blank : denotedIn (List.replicate g.space .blank) = [] :=
      List.flatMap_eq_nil_iff.mpr fun line member => by
        rw [List.eq_of_mem_replicate member]
        rfl
    unfold Group.lines
    split
    · rename_i empty
      rw [List.isEmpty_iff.mp empty]
      rfl
    · rw [denotedIn_append, blank, denotedIn_flatMap, List.nil_append]
  rw [lines, denotedIn_cons, denoted_doc, denoted_nil, denotedIn_flatMap, declarations,
    List.flatMap_assoc, List.nil_append]
  exact List.flatMap_congr fun g _ => group g

theorem denotedIn_enumClass (c : EnumClass) : denotedIn (Declaration.enumClass c).lines =
    written (c.tags.flatMap fun entry => [entry.1, entry.2]) := by
  have table : denotedIn (c.tags.map fun entry =>
      ⟨1, [.literal entry.1, ": ", .literal entry.2, ","]⟩) =
      written (c.tags.flatMap fun entry => [entry.1, entry.2]) := by
    rw [denotedIn_map, written_flatMap]
    refine List.flatMap_congr fun entry _ => ?_
    simp (disch := decide)
  have numbers : denotedIn (c.tags.zipIdx.map fun entry =>
      ⟨0, [.name entry.1.1, " = ", .name (toString entry.2)]⟩) = [] := by
    rw [denotedIn_map]
    exact List.flatMap_eq_nil_iff.mpr fun _ _ => rfl
  rw [Declaration.lines, denotedIn_cons, denotedIn_indent, EnumClass.body, denotedIn_append,
    denotedIn_append, numbers]
  split
  · rename_i empty
    rw [List.isEmpty_iff.mp empty]
    rfl
  · rw [List.cons_append, denotedIn_cons, denotedIn_append, table]
    simp [Line.plain, Line.blank]

theorem denotedIn_enumsModule {enums : ModuleSource} (made : enumsModule s = .ok enums) :
    denotedIn enums.lines = written s.tagTexts := by
  obtain ⟨classes, ofEnumerations, declared⟩ := declarations_enumsModule made
  have texts : classes.flatMap (fun c => c.tags.flatMap fun entry => [entry.1, entry.2]) =
      s.tagTexts := by
    refine flatMap_eq_of_forall₂ ofEnumerations fun e c ofEnumeration => ?_
    rw [ofEnumeration.tags, Enumeration.entriesOf, List.flatMap_map]
  rw [denotedIn_module, declared, ← texts, written_flatMap]
  simp only [List.flatMap_cons, List.flatMap_map, denotedIn_enumClass]
  rfl

theorem denotedIn_documentFunction (root : String) :
    ∀ m ∈ documentFunctions root, denotedIn m.lines = [] := by
  intro m member
  simp only [documentFunctions, List.mem_cons, List.not_mem_nil, or_false] at member
  rcases member with rfl | rfl | rfl | rfl
  · rw [denotedIn_method (by simp [Mute, intakeFunction]) (by simp [Mute, intakeFunction])]
    rfl
  · rw [denotedIn_method (by simp [Mute, intakeFunction]) (by simp [Mute, intakeFunction])]
    rfl
  · rw [denotedIn_method (by simp [Mute]) (by simp [Mute])]
    rfl
  · rw [denotedIn_method (by simp [Mute]) (by simp [Mute])]
    rfl

theorem denotedIn_recordsModule {package : Label} {records : ModuleSource}
    (made : recordsModule s package = .ok records) : ∃ types, s.dependencyOrder = .ok types ∧
      denotedIn records.lines = written (s.rootTexts ++ types.flatMap ComplexType.texts) := by
  obtain ⟨name, root, types, classes, table, enums, _, _, ordered, isClasses, _, declared⟩ :=
    declarations_recordsModule made
  refine ⟨types, ordered, ?_⟩
  obtain ⟨_, ofTypes, _⟩ := recordClassesOf_spec .empty isClasses
  have simple := simple_of_recordClassesOf isClasses
  have isClass : (classes.map Declaration.recordClass).flatMap (fun d => denotedIn d.lines) =
      written (types.flatMap ComplexType.texts) := by
    have both := forall₂_imp_mem ofTypes.flip fun c member t ofType => And.intro member ofType
    rw [written_flatMap, List.flatMap_map]
    refine flatMap_eq_of_forall₂ both.flip fun t c given => ?_
    obtain ⟨member, ofType⟩ := given
    rw [Declaration.lines, denotedIn_cons, denotedIn_cons, denotedIn_indent,
      RecordClass.denotedIn_body (ofType.simple (simple c member)), ofType.texts_eq]
    rfl
  have imports (path : String) :
      (enumImportsOf path enums).flatMap (fun d => denotedIn d.lines) = [] := by
    unfold enumImportsOf
    split
    · rfl
    · rw [List.flatMap_singleton, Declaration.lines, List.cons_append, denotedIn_cons,
        denotedIn_append, denotedIn_map]
      simp [Line.plain]
  have isRoot : denotedIn (Declaration.constant "ROOT_ELEMENT" [labelPiece s.rootElement]).lines =
      written s.rootTexts := by
    unfold rootTexts
    cases s.rootElement <;> simp [Declaration.lines, labelPiece]
  have constants : (constantsOf table).flatMap (fun d => denotedIn d.lines) = [] := by
    rw [constantsOf, List.flatMap_map]
    refine List.flatMap_eq_nil_iff.mpr fun entry _ => ?_
    obtain ⟨constant, term⟩ := entry
    cases term <;> rfl
  have functions : ((documentFunctions root).map Declaration.function).flatMap
      (fun d => denotedIn d.lines) = [] := by
    rw [List.flatMap_map]
    exact List.flatMap_eq_nil_iff.mpr (denotedIn_documentFunction root)
  have standard : (standardImports.flatMap (·.declarations)).flatMap
      (fun d => denotedIn d.lines) = [] := rfl
  rw [denotedIn_module, declared, written_append, ← isClass, ← isRoot]
  simp only [List.flatMap_append, List.flatMap_cons, standard, imports, constants, functions,
    List.nil_append, List.append_nil]

theorem denotes_iff {m : ModuleSource} {texts : List String}
    (denoted : denotedIn m.lines = written texts) :
    m.Denotes texts ↔ ∀ text ∈ texts, Text.IsBasic text := by
  rw [Denotes, denoted, written, List.map_inj_left]
  refine forall₂_congr fun text _ => ?_
  rw [Option.some.injEq, Text.writtenPoints_eq_iff]

/-- What the literal of a text denotes is the text if its characters lie in the basic plane, and else
not. In the modules of a schema every tag, canonical text, name and default is written as such a literal,
so they denote those of the schema if and only if all of them lie in the basic plane. -/
theorem denotes_texts_iff (text : String) :
    (∃ points, Text.readLiteral? (Text.literal text).toList = some (points, [])) ∧
    (Text.Denotes (Text.literal text) text ↔ Text.IsBasic text) ∧
    ∀ {s : Schema} {package : Option String} {files : List File},
      generate s package = .ok files → ∃ (name : String) (enums records : ModuleSource) (types : _),
        s.name = .text name ∧ files = [⟨Identifier.module name ++ "_enums.py", enums.print⟩,
          ⟨Identifier.module name ++ ".py", records.print⟩] ∧
        s.dependencyOrder = .ok types ∧
        (enums.Denotes s.tagTexts ↔ ∀ text ∈ s.tagTexts, Text.IsBasic text) ∧
        (records.Denotes (s.rootTexts ++ types.flatMap ComplexType.texts) ↔
          ∀ text ∈ s.rootTexts ++ types.flatMap ComplexType.texts, Text.IsBasic text) := by
  refine ⟨⟨Text.writtenPoints text, ?_⟩, Text.denotes_literal_iff text, ?_⟩
  · simpa using Text.readLiteral?_literal text [] (by simp)
  · intro s package files generated
    obtain ⟨_, name, enums, records, isName, isEnums, isRecords, isFiles⟩ :=
      generate_eq_ok_iff.mp generated
    obtain ⟨types, ordered, inRecords⟩ := denotedIn_recordsModule isRecords
    exact ⟨name, enums, records, types, isName, isFiles, ordered,
      denotes_iff (denotedIn_enumsModule isEnums), denotes_iff inRecords⟩

theorem denotes_shelf : ∃ files, generate shelfSchema none = .ok files ∧
    ∃ (enums records : ModuleSource) (types : _),
      files = [⟨"shelf_enums.py", enums.print⟩, ⟨"shelf.py", records.print⟩] ∧
      shelfSchema.dependencyOrder = .ok types ∧
      enums.Denotes ["novel", "novel", "atlas", "atlas"] ∧
      records.Denotes (shelfSchema.rootTexts ++ types.flatMap ComplexType.texts) := by
  obtain ⟨files, generated⟩ := exists_generate_shelf
  obtain ⟨name, enums, records, types, isName, isFiles, ordered, inEnums, inRecords⟩ :=
    (denotes_texts_iff "novel").2.2 generated
  obtain rfl := Json.text.inj isName
  have isTypes : types = shelfSchema.declared := Except.ok.inj (ordered.symm.trans rfl)
  refine ⟨files, generated, enums, records, types, isFiles, ordered, inEnums.mpr (by decide), ?_⟩
  refine inRecords.mpr ?_
  rw [isTypes]
  decide

/-- The literal of a character outside the basic plane denotes two surrogates, also among the canonical
texts of an enumeration. -/
theorem not_denotes_surrogates :
    Text.readLiteral? (Text.literal "😀").toList = some ([0xD83D, 0xDE00], []) ∧
      ¬ Text.Denotes (Text.literal "😀") "😀" ∧
      load (modeDefinition "😀") (.text "sole") = .ok (modeSchema "😀") ∧
      ∃ enums, enumsModule (modeSchema "😀") = .ok enums ∧ ¬ enums.Denotes ["_", "😀"] := by
  have read : Text.readLiteral? (Text.literal "😀").toList = some ([0xD83D, 0xDE00], []) := by
    decide +kernel
  obtain ⟨enums, made⟩ : ∃ enums, enumsModule (modeSchema "😀") = .ok enums := ⟨_, rfl⟩
  have texts : (modeSchema "😀").tagTexts = ["_", "😀"] := by decide +kernel
  refine ⟨read, ?_, rfl, enums, made, ?_⟩
  · rw [Text.Denotes, read]
    decide
  · rw [← texts, denotes_iff (denotedIn_enumsModule made), texts]
    decide

end ModuleSource

end XmlRecords
