import XmlRecords.Intake
import XmlRecords.Proofs.Loading
import XmlRecords.Proofs.RecordReadBack
import XmlRecords.Proofs.TreeCharacters

/-!
Documents there and back: which records come back from the documents that they are written as.
-/

set_option autoImplicit false
set_option relaxedAutoImplicit false

namespace XmlRecords

open Xml

/-! ### Taking in a written document -/

namespace Xml

theorem plainTag_not_included (name : String) (attributes : List (String × String)) :
    (plainTag name attributes).isInclude = false ∧ (plainTag name attributes).isFallback = false := by
  have outside : "" ∉ inclusionSpaces := by decide
  exact ⟨by simp [StartTag.isInclude, plainTag, outside],
    by simp [StartTag.isFallback, plainTag, outside]⟩

theorem includeIn?_plain {inclusion : Inclusion} {name : String}
    {attributes : List (String × String)} {children : List Node}
    (inside : ∀ base, includeInAll? inclusion base children = some children)
    (base : Option String) :
    includeIn? inclusion base (.element (plainTag name attributes) children) =
      some [.element (plainTag name attributes) children] := by
  obtain ⟨notInclude, notFallback⟩ := plainTag_not_included name attributes
  rw [includeIn?, notInclude, notFallback, inside]
  rfl

theorem includeInAll?_cons {inclusion : Inclusion} {base : Option String} {node : Node}
    {nodes : List Node} (first : includeIn? inclusion base node = some [node])
    (rest : includeInAll? inclusion base nodes = some nodes) :
    includeInAll? inclusion base (node :: nodes) = some (node :: nodes) := by
  rw [includeInAll?, first, rest]
  rfl

theorem Forest.includeInAll?_nodes (row : Forest) (inclusion : Inclusion) (base : Option String)
    (depth outer : Int) :
    includeInAll? inclusion base (row.nodes depth outer) = some (row.nodes depth outer) := by
  induction row generalizing base depth outer with
  | nil => rfl
  | text name content rest ih =>
    have inside (base : Option String) : includeInAll? inclusion base
        (if content = "" then [] else [.text content]) =
          some (if content = "" then [] else [.text content]) := by
      split <;> rfl
    exact includeInAll?_cons rfl (includeInAll?_cons
      (@includeIn?_plain inclusion name [] _ inside base) (ih base depth outer))
  | element name attributes inside rest ihInside ihRest =>
    exact includeInAll?_cons rfl (includeInAll?_cons
      (includeIn?_plain (fun base => ihInside base (depth + 1) depth) base) (ihRest base depth outer))

theorem includeInRoot?_plain (store : FileStore) (expand : Bool) (depthLimit : Option Nat)
    (base : Option String) (name : String) (attributes : List (String × String)) (row : Forest)
    (depth outer : Int) :
    includeInRoot? store expand depthLimit base
        (.element (plainTag name attributes) (row.nodes depth outer)) =
      some (.element (plainTag name attributes) (row.nodes depth outer)) := by
  have same := @includeIn?_plain (inclusionOf store expand depthLimit inclusionDepth base.toList)
    name attributes _ (fun place => row.includeInAll?_nodes _ place depth outer) base
  rw [includeInRoot?, same]
  simp only [Option.bind_some, bind, (plainTag_not_included name attributes).1]
  rfl

end Xml

namespace Intake

theorem exists_of_ofRoot {source : String} {rootElement : Schema.Label} {type : RecordType}
    {root : Node} {record : Value} {notices : List Notice}
    (taken : ofRoot source rootElement type root = .ok ⟨some record, notices⟩) :
    ∃ tag children, root = .element tag children ∧ rootElement = .text tag.name ∧
      type.fromNode (.element tag children) = .ok record := by
  unfold ofRoot at taken
  split at taken
  · rename_i tag children
    split at taken
    · rename_i named
      obtain ⟨record', read, same⟩ := bind_eq_ok_iff.mp taken
      obtain ⟨same, _⟩ := Intake.mk.inj (Except.ok.inj same)
      obtain rfl := Option.some.inj same
      exact ⟨tag, children, rfl, Schema.same_text_iff.mp named, read⟩
    · cases taken
  · cases taken

/-- A written document is taken in as the record that its root element gives. -/
theorem parse_declared {options : IntakeOptions} (deep : options.depthLimit = none)
    (store : FileStore) {rootElement : Schema.Label} {type : RecordType} {name : String}
    (isRoot : rootElement = .text name) (plain : IsPlainName name)
    {attributes : List (String × String)} (fit : PlainAttributes attributes) {inside : Forest}
    (insideFit : inside.Plain) {text : String}
    (spelt : text.toList = declaration.toList ++ elementChars 0 name attributes inside) :
    Intake.parse options store rootElement type (.characters text) =
      (type.fromNode (.element (plainTag name attributes) (inside.normalized.nodes 1 0))).map
        fun record => ⟨some record, []⟩ := by
  have tree := @parse?_declared (settings options store options.base) deep name plain attributes fit
    inside insideFit text spelt
  have root : ofRoot "<string>" rootElement type
      (.element (plainTag name attributes) (inside.normalized.nodes 1 0)) =
      (type.fromNode (.element (plainTag name attributes) (inside.normalized.nodes 1 0))).map
        fun record => ⟨some record, []⟩ := by
    have named : rootElement.same (.text (plainTag name attributes).name) = true := by
      rw [isRoot]
      simp [Json.same, plainTag]
    rw [ofRoot, if_pos named]
    cases type.fromNode (.element (plainTag name attributes) (inside.normalized.nodes 1 0)) <;> rfl
  rw [Intake.parse, tree]
  simp only [ofDocument]
  split
  · rw [includeInRoot?_plain]
    exact root
  · exact root

end Intake

/-! ### Gauges -/

/-- The definition of gauges with any number of marks, each at a number, and perhaps a note. -/
def gaugeDefinition : Json :=
  .object [
    ("name", .text "gauge"),
    ("types", .array [
      .object [
        ("name", .text "Mark"),
        ("attributes", .array [.object [
          ("name", .text "at"), ("type", .text "double"), ("required", .boolean true)]])],
      .object [
        ("name", .text "Gauge"),
        ("elements", .array [
          .object [("name", .text "mark"), ("type", .text "Mark"), ("maxOccurs", .text "unbounded")],
          .object [("name", .text "note"), ("type", .text "string"), ("minOccurs", .integer 0)]])]]),
    ("root", .object [("element", .text "gauge"), ("type", .text "Gauge")])]

def gaugeSchema : Schema := {
  name := .text "gauge"
  rootElement := .text "gauge"
  rootType := 1
  declared := [
    ⟨0, .text "Mark", .text "Mark", none, [⟨.text "at", .primitive .double, true, none⟩], []⟩,
    ⟨1, .text "Gauge", .text "Gauge", none, [],
      [⟨.text "mark", .complex 0, .repeated⟩, ⟨.text "note", .primitive .string, .optional⟩]⟩]
  undeclared := []
  enumerations := []
  package := .null }

def markType : RecordType :=
  .mk "Mark" "Mark" [.simple ⟨"at", "at", true, .once⟩ (.real .double) .absent]

def gaugeType : RecordType :=
  .mk "Gauge" "Gauge" [
    .nested ⟨"mark", "mark", false, .repeated⟩ markType .absent,
    .simple ⟨"note", "note", false, .optional⟩ .text .absent]

def gaugeBound : BoundSchema :=
  ⟨gaugeSchema, [], [(.text "Mark", markType), (.text "Gauge", gaugeType)]⟩

theorem load_gaugeDefinition : Schema.load gaugeDefinition (.text "gauge") = .ok gaugeSchema := by
  rfl

theorem bind_gaugeSchema : BoundSchema.bind gaugeSchema = .ok gaugeBound := by
  rfl

theorem plainNames_gaugeSchema : gaugeSchema.PlainNames := by
  constructor
  · simp [gaugeSchema]
    decide
  · simp [gaugeSchema]
    decide

theorem legibleDefaults_gaugeSchema : gaugeSchema.LegibleDefaults := by
  simp [Schema.LegibleDefaults, gaugeSchema]

theorem plain_rootElement_gaugeSchema {name : String} (isRoot : gaugeSchema.rootElement = .text name) :
    IsPlainName name := by
  obtain rfl := Json.text.inj isRoot
  decide

def IntakeOptions.unlimited : IntakeOptions := { IntakeOptions.standard with depthLimit := none }

def halfMark : Value := .record markType.layout [.real (.finite false 4503599627370496 (-53))]

theorem itemOf_halfMark : itemOf gaugeType.fields
    (.element (plainTag "mark" [("at", "0.5")]) [.text "\n    "]) = .ok (some ("mark", halfMark)) := by
  have half : Number.realOfText? "0.5" = some (.finite false 4503599627370496 (-53)) := by
    decide +kernel
  have read : (Codec.real .double).read "0.5" =
      .ok (.real (.finite false 4503599627370496 (-53))) := by
    simp only [Codec.read, Codec.readReal, half]
  have raw : attributeValue [⟨"", "at", "0.5"⟩] "at" = .ok "0.5" := rfl
  have value : Field.fromAttribute (.simple ⟨"at", "at", true, .once⟩ (.real .double) .absent)
      [⟨"", "at", "0.5"⟩] = .ok (.real (.finite false 4503599627370496 (-53))) := by
    rw [Field.fromAttribute]
    simp only [Field.key, Field.codec?, raw, bind, Except.bind]
    rw [if_neg (by decide), read]
    rfl
  have values : attributeValues markType.fields [⟨"", "at", "0.5"⟩] =
      .ok [("at", .real (.finite false 4503599627370496 (-53)))] := by
    have only : markType.fields.filter (·.key.isAttribute) =
        [.simple ⟨"at", "at", true, .once⟩ (.real .double) .absent] := rfl
    rw [attributeValues, only, List.mapM_cons, value]
    rfl
  have found : Field.forElement? gaugeType.fields (plainTag "mark" [("at", "0.5")]).name =
      some (.nested ⟨"mark", "mark", false, .repeated⟩ markType .absent) := rfl
  have given : (plainTag "mark" [("at", "0.5")]).attributes = [⟨"", "at", "0.5"⟩] := rfl
  rw [itemOf, found]
  simp only [given, values]
  rfl

theorem parse_halfMark :
    gaugeBound.parse .unlimited (FileStore.empty []) (.characters ("<?xml version=\"1.0\"" ++
        " encoding=\"utf-8\"?>\n<gauge>\n    <mark at=\"0.5\">\n    </mark>\n" ++
        "    <note>a\nb</note>\n</gauge>\n")) =
      .ok ⟨some (.record gaugeType.layout [.list [halfMark], .text "a\nb"]), []⟩ := by
  let inside : Forest := .element "mark" [("at", "0.5")] .nil (.text "note" "a\nb" .nil)
  have insideFit : inside.Plain := by
    refine ⟨by decide, ⟨by decide, by decide, ?_⟩, trivial, by decide, legible_of_all (by decide),
      trivial⟩
    exact List.forall_mem_singleton.mpr (legible_of_all (by decide))
  have children : inside.normalized.nodes 1 0 = [.text "\n    ",
      .element (plainTag "mark" [("at", "0.5")]) [.text "\n    "], .text "\n    ",
      .element (plainTag "note" []) [.text "a\nb"], .text "\n"] := rfl
  have back : gaugeType.fromNode (.element (plainTag "gauge" []) (inside.normalized.nodes 1 0)) =
      .ok (.record gaugeType.layout [.list [halfMark], .text "a\nb"]) := by
    have blank : itemOf gaugeType.fields (.text "\n    ") = .ok none := rfl
    rw [children, RecordType.fromNode, itemsOf, blank]
    simp only
    rw [itemsOf, itemOf_halfMark]
    rfl
  have isRoot : gaugeBound.rootType = .ok gaugeType := rfl
  have named : gaugeBound.schema.rootElement = .text "gauge" := rfl
  have plain : IsPlainName "gauge" := by decide
  rw [BoundSchema.parse, isRoot]
  simp only [bind, Except.bind]
  rw [Intake.parse_declared rfl (FileStore.empty []) named plain plainAttributes_nil insideFit
    (by decide +kernel), back]
  rfl

theorem parse_returnNote :
    gaugeBound.parse .unlimited (FileStore.empty [])
        (.characters "<gauge><note>a&#13;b</note></gauge>") =
      .ok ⟨some (.record gaugeType.layout [.list [], .text "a\x0db"]), []⟩ := by
  let cs : List Char := ['<', 'g', 'a', 'u', 'g', 'e', '>', '<', 'n', 'o', 't', 'e', '>', 'a', '&', '#',
    '1', '3', ';', 'b', '<', '/', 'n', 'o', 't', 'e', '>', '<', '/', 'g', 'a', 'u', 'g', 'e', '>']
  have chars : "<gauge><note>a&#13;b</note></gauge>".toList = cs := by decide
  have fits : cs.all isXmlChar = true := by decide
  have undeclared : takeDocumentDeclaration? (normalizeLines false cs) = some (none, cs) := by
    decide +kernel
  have prolog (s : Surroundings) : takeProlog? s cs = some (Declarations.empty, cs) := by
    have skipped : skipMisc? (cs.length + 1) cs = some cs := by decide +kernel
    have noType : dropText? "<!DOCTYPE" cs = none := by decide +kernel
    rw [takeProlog?, skipped]
    simp only [Option.bind_eq_bind, Option.bind_some, noType]
  have lexed : tokens? cs = some [.opening "gauge" [] false, .opening "note" [] false,
      .characters [.literal 'a', .character '\r', .literal 'b'], .closing "note",
      .closing "gauge"] := by
    decide +kernel
  have content : content? cs = some [.element "gauge" [] [.element "note" []
      [.characters [.literal 'a', .character '\r', .literal 'b']]]] := by
    rw [content?, lexed]
    rfl
  have tree : (Source.characters "<gauge><note>a&#13;b</note></gauge>").parse?
      (Intake.settings .unlimited (FileStore.empty []) none) =
        some (.element ⟨"", "gauge", []⟩ [.element ⟨"", "note", []⟩ [.text "a\x0db"]]) := by
    have unmarked : dropMark cs = cs := rfl
    rw [Source.parse?, Source.characters?, chars, unmarked, Option.bind_some]
    simp only [parseDocument?, fits, undeclared, prolog, content, Option.bind_eq_bind,
      Option.bind_some]
    rfl
  have isRoot : gaugeBound.rootType = .ok gaugeType := rfl
  have noBase : IntakeOptions.unlimited.base = none := rfl
  rw [BoundSchema.parse, isRoot]
  simp only [bind, Except.bind, Intake.parse, noBase, tree]
  rfl

/-! ### Bound schemas -/

namespace BoundSchema

/-- A root record comes back from its document: each of its simple items, at whatever depth, keeps
its tags, is no empty list other than the one its field holds when nothing is given, and has no
carriage return in its text unless it is an attribute. -/
def Keeps (b : BoundSchema) (record : Value) : Prop :=
  ∃ type, b.rootType = .ok type ∧ type.Holds Field.Keeps record

variable {definition : Json} {source : Schema.Label} {s : Schema} {b : BoundSchema}

theorem schema_of_bind (bound : bind s = .ok b) : b.schema = s := by
  unfold bind at bound
  simp only [bind_eq_ok_iff, pure, Except.pure, Except.ok.injEq] at bound
  obtain ⟨_, _, _, _, _, _, _, _, rfl⟩ := bound
  rfl

theorem fitting_of_bind (loaded : Schema.load definition source = .ok s) (bound : bind s = .ok b)
    (names : s.PlainNames) (defaults : s.LegibleDefaults) :
    ∀ entry ∈ b.records, entry.2.Throughout Field.Fitting := by
  obtain ⟨noneUndeclared, regular⟩ := Schema.regular_of_load loaded
  refine throughout_of_bind bound fun t inSchema fields distinct declared => ?_
  have inDeclared : t ∈ s.declared := by
    rw [noneUndeclared, List.append_nil] at inSchema
    exact inSchema
  exact ⟨writable_of_declares names inSchema distinct declared,
    typed_of_declares (distinct_of_bind bound) (regular t inDeclared) (defaults t inSchema) declared⟩

theorem mem_of_rootType {type : RecordType} (isRoot : b.rootType = .ok type) :
    ∃ label, (label, type) ∈ b.records := by
  unfold rootType at isRoot
  split at isRoot
  · rename_i type' found
    obtain rfl := Except.ok.inj isRoot
    obtain ⟨t, _, named⟩ := Option.bind_eq_some_iff.mp found
    exact mem_of_recordNamed? named
  · cases isRoot

/-- A root record with texts is written as a document, which gives what the element of the record
does. -/
theorem exists_document {type : RecordType} (fitting : type.Throughout Field.Fitting)
    (isRoot : b.rootType = .ok type) {name : String} (named : b.schema.rootElement = .text name)
    (plain : IsPlainName name) {options : IntakeOptions} (deep : options.depthLimit = none)
    (store : FileStore) {record : Value} (holds : type.Holds Formatted record) :
    ∃ text values attributes inside, record = .record type.layout values ∧
      b.write record = .ok text ∧
      text.toList = declaration.toList ++ elementChars 0 name attributes inside ∧
      DrawsAttributes (presentItems type.fields values) attributes ∧
      Draws (presentItems type.fields values) inside ∧
      b.parse options store (.characters text) =
        (type.fromNode (.element (plainTag name attributes) (inside.normalized.nodes 1 0))).map
          fun record => ⟨some record, []⟩ := by
  obtain ⟨text, values, attributes, inside, isRecord, wrote, spelt, attributesDrawn, drawn,
    attributesPlain, insidePlain⟩ := exists_elementChars (fitting.imp fun _ both => both.1) holds name 0
  have whole : (declaration ++ text).toList =
      declaration.toList ++ elementChars 0 name attributes inside := by
    rw [String.toList_append, spelt]
    rfl
  refine ⟨declaration ++ text, values, attributes, inside, isRecord, ?_, whole, attributesDrawn,
    drawn, ?_⟩
  · rw [write, Value.writeDocument, named, Json.shown, wrote]
    rfl
  · rw [parse, isRoot]
    exact Intake.parse_declared deep store named plain attributesPlain insidePlain whole

/-- The record of a document comes from its root element, the texts of which documents may hold. -/
theorem reads_of_parse {options : IntakeOptions} (baseFit : LegibleBase options.base)
    {store : FileStore} {document : Source} {record : Value} {notices : List Notice}
    (taken : b.parse options store document = .ok ⟨some record, notices⟩) :
    ∃ type name, b.rootType = .ok type ∧ b.schema.rootElement = .text name ∧ type.Reads record := by
  obtain ⟨type, isRoot, taken⟩ := bind_eq_ok_iff.mp taken
  unfold Intake.parse at taken
  split at taken
  · cases taken
  · rename_i root parsed
    have ofRoot {root : Node} (legible : Legible root.characters)
        (taken : Intake.ofRoot "<string>" b.schema.rootElement type root =
          .ok ⟨some record, notices⟩) : ∃ type name, b.rootType = .ok type ∧
            b.schema.rootElement = .text name ∧ type.Reads record := by
      obtain ⟨tag, children, rfl, named, read⟩ := Intake.exists_of_ofRoot taken
      exact ⟨type, tag.name, isRoot, named, tag, children, legible, read⟩
    have legible := legible_of_parse? parsed
    unfold Intake.ofDocument at taken
    split at taken
    · split at taken
      · rename_i included isIncluded
        exact ofRoot (legible_of_includeInRoot? baseFit legible isIncluded) taken
      · cases taken
    · exact ofRoot legible taken

theorem holds_formatted_of_write {type : RecordType} (fitting : type.Throughout Field.Fitting)
    {name : String} (named : b.schema.rootElement = .text name) {record : Value}
    (reads : type.Reads record) {text : String} (wrote : b.write record = .ok text) :
    type.Holds Formatted record := by
  rw [write, Value.writeDocument, named, Json.shown] at wrote
  obtain ⟨element, wroteElement, _⟩ := bind_eq_ok_iff.mp wrote
  exact RecordType.holds_formatted_of_written fitting reads wroteElement

theorem holds_keeps_of_parsed {type : RecordType} (fitting : type.Throughout Field.Fitting)
    (isRoot : b.rootType = .ok type) {name : String} (named : b.schema.rootElement = .text name)
    (plain : IsPlainName name) {options : IntakeOptions} (deep : options.depthLimit = none)
    {store : FileStore} {record again : Value} (reads : type.Reads record) {text : String}
    {others : List Notice} (wrote : b.write record = .ok text)
    (parsed : b.parse options store (.characters text) = .ok ⟨some again, others⟩)
    (same : Value.same again record = true) : type.Holds Field.Keeps record := by
  have formatted := holds_formatted_of_write fitting named reads wrote
  obtain ⟨text', values, attributes, inside, rfl, wrote', _, attributesDrawn, drawn, parsed'⟩ :=
    exists_document fitting isRoot named plain deep store formatted
  obtain rfl := Except.ok.inj (wrote.symm.trans wrote')
  rw [parsed', map_eq_ok_iff] at parsed
  obtain ⟨_, back, isAgain⟩ := parsed
  obtain rfl := Option.some.inj (Intake.mk.inj isAgain).1
  exact RecordType.keeps_of_fromNode fitting reads attributesDrawn drawn back same

/-- Round trip: the record of a document comes back from the document that it is written as exactly
if it is kept. -/
theorem parse_write_iff (loaded : Schema.load definition source = .ok s) (bound : bind s = .ok b)
    (names : s.PlainNames) (rootPlain : ∀ name, s.rootElement = .text name → IsPlainName name)
    (defaults : s.LegibleDefaults) {options : IntakeOptions} (baseFit : LegibleBase options.base)
    (deep : options.depthLimit = none) {store : FileStore} {document : Source} {record : Value}
    {notices : List Notice}
    (taken : b.parse options store document = .ok ⟨some record, notices⟩)
    (numbers : .nan ∉ record.reals)
    (exact' : ∀ x ∈ record.reals, Number.realOfText? x.text = some x) :
    (∃ text again others, b.write record = .ok text ∧
        b.parse options store (.characters text) = .ok ⟨some again, others⟩ ∧
        Value.same again record = true) ↔
      b.Keeps record := by
  obtain ⟨type, name, isRoot, named, reads⟩ := reads_of_parse baseFit taken
  obtain ⟨label, member⟩ := mem_of_rootType isRoot
  have fitting := fitting_of_bind loaded bound names defaults _ member
  have plain : IsPlainName name := rootPlain name (schema_of_bind bound ▸ named)
  constructor
  · rintro ⟨text, again, others, wrote, parsed, same⟩
    exact ⟨type, isRoot,
      holds_keeps_of_parsed fitting isRoot named plain deep reads wrote parsed same⟩
  · rintro ⟨type', isRoot', keeps⟩
    obtain rfl := Except.ok.inj (isRoot.symm.trans isRoot')
    have formatted := RecordType.holds_formatted fitting reads exact' keeps
    obtain ⟨text, values, attributes, inside, rfl, wrote, _, attributesDrawn, drawn, parsed⟩ :=
      exists_document fitting isRoot named plain deep store formatted
    have back := RecordType.fromNode_of_keeps fitting reads exact' keeps attributesDrawn drawn name 1 0
    rw [back] at parsed
    exact ⟨text, _, [], wrote, parsed, Value.same_self numbers⟩

theorem parse_write_iff_halfMark :
    (gaugeBound.parse .unlimited (FileStore.empty []) (.characters ("<?xml version=\"1.0\"" ++
        " encoding=\"utf-8\"?>\n<gauge>\n    <mark at=\"0.5\">\n    </mark>\n" ++
        "    <note>a\nb</note>\n</gauge>\n")) =
      .ok ⟨some (.record gaugeType.layout [.list [halfMark], .text "a\nb"]), []⟩) ∧
    ((∃ text again others,
        gaugeBound.write (.record gaugeType.layout [.list [halfMark], .text "a\nb"]) = .ok text ∧
        gaugeBound.parse .unlimited (FileStore.empty []) (.characters text) =
          .ok ⟨some again, others⟩ ∧
        Value.same again (.record gaugeType.layout [.list [halfMark], .text "a\nb"]) = true) ↔
      gaugeBound.Keeps (.record gaugeType.layout [.list [halfMark], .text "a\nb"])) := by
  have reals : (Value.record gaugeType.layout [.list [halfMark], .text "a\nb"]).reals =
      [.finite false 4503599627370496 (-53)] := rfl
  refine ⟨parse_halfMark, parse_write_iff load_gaugeDefinition bind_gaugeSchema
    plainNames_gaugeSchema (fun _ => plain_rootElement_gaugeSchema) legibleDefaults_gaugeSchema
    legibleBase_none rfl parse_halfMark ?_ ?_⟩
  · rw [reals]
    decide
  · rw [reals]
    intro x member
    rw [List.mem_singleton.mp member]
    decide +kernel

/-- A text with a carriage return comes back with a line feed: the writer has no escape for it. -/
theorem parse_write_returnNote :
    Schema.load gaugeDefinition (.text "gauge") = .ok gaugeSchema ∧
      bind gaugeSchema = .ok gaugeBound ∧ gaugeSchema.PlainNames ∧ gaugeSchema.LegibleDefaults ∧
      gaugeBound.parse .unlimited (FileStore.empty [])
          (.characters "<gauge><note>a&#13;b</note></gauge>") =
        .ok ⟨some (.record gaugeType.layout [.list [], .text "a\x0db"]), []⟩ ∧
      ¬ ∃ text again others,
        gaugeBound.write (.record gaugeType.layout [.list [], .text "a\x0db"]) = .ok text ∧
        gaugeBound.parse .unlimited (FileStore.empty []) (.characters text) =
          .ok ⟨some again, others⟩ ∧
        Value.same again (.record gaugeType.layout [.list [], .text "a\x0db"]) = true := by
  refine ⟨load_gaugeDefinition, bind_gaugeSchema, plainNames_gaugeSchema,
    legibleDefaults_gaugeSchema, parse_returnNote, ?_⟩
  rintro ⟨text, again, others, wrote, parsed, same⟩
  have isRoot : gaugeBound.rootType = .ok gaugeType := rfl
  have fitting : gaugeType.Throughout Field.Fitting :=
    fitting_of_bind load_gaugeDefinition bind_gaugeSchema plainNames_gaugeSchema
      legibleDefaults_gaugeSchema (.text "Gauge", gaugeType) (by simp [gaugeBound])
  have reads : gaugeType.Reads (.record gaugeType.layout [.list [], .text "a\x0db"]) :=
    ⟨⟨"", "gauge", []⟩, [.element ⟨"", "note", []⟩ [.text "a\x0db"]],
      legible_of_all (by decide), rfl⟩
  obtain ⟨values, isRecord, _, conforms⟩ := holds_keeps_of_parsed fitting isRoot rfl (by decide)
    rfl reads wrote parsed same
  obtain rfl := (Value.record.inj isRecord).2
  have kept := conforms.simple_items
    (.simple ⟨"note", "note", false, .optional⟩ .text .absent, .text "a\x0db") List.mem_cons_self
    .text rfl
  exact kept.lines rfl "a\x0db" rfl (by decide)

end BoundSchema

end XmlRecords
