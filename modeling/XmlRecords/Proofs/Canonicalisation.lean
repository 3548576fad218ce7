import XmlRecords.Proofs.Realizability
import XmlRecords.Proofs.RecordSettling
import XmlRecords.Proofs.RoundTrip

/-!
Documents written and read twice: a first rewriting may change what a record holds, a second one
changes nothing of the text.
-/

set_option autoImplicit false
set_option relaxedAutoImplicit false

namespace XmlRecords

open Xml

namespace BoundSchema

/-- The conversions of the enumerations that a root record needs never fail: those of the tags in it,
and those of what stands in for an empty list where the field has a default. -/
def Settles (b : BoundSchema) (record : Value) : Prop :=
  ∃ type, b.rootType = .ok type ∧ type.Holds Field.Settles record

variable {definition : Json} {source : Schema.Label} {s : Schema} {b : BoundSchema}
  {type : RecordType}

/-- A record that lasts is written as a document that gives a record, whose items take the place of
those of the first. -/
theorem exists_again (fitting : type.Throughout Field.Fitting) (isRoot : b.rootType = .ok type)
    {name : String} (named : b.schema.rootElement = .text name) (plain : IsPlainName name)
    {options : IntakeOptions} (deep : options.depthLimit = none) (store : FileStore)
    {values : List Value} (reads : type.Reads (.record type.layout values))
    (lasts : type.Holds Field.Lasts (.record type.layout values)) :
    ∃ text attributes inside others, b.write (.record type.layout values) = .ok text ∧
      text.toList = declaration.toList ++ elementChars 0 name attributes inside ∧
      DrawsAttributes (presentItems type.fields values) attributes ∧
      Draws (presentItems type.fields values) inside ∧
      b.parse options store (.characters text) = .ok ⟨some (.record type.layout others), []⟩ ∧
      Shaped type.fields others ∧
      Again (presentItems type.fields values) (presentItems type.fields others) := by
  have formatted := lasts.imp fun _ _ _ item => item.formatted
  have rereads := lasts.imp fun _ _ _ both => both.1.exists_rereads both.2
  obtain ⟨text, values', attributes, inside, same, wrote, spelt, attributesDrawn, drawn, parsed⟩ :=
    exists_document fitting isRoot named plain deep store formatted
  obtain rfl := (Value.record.inj same).2
  obtain ⟨w, back⟩ :=
    RecordType.exists_fromNode_of_rereads fitting reads rereads attributesDrawn drawn name 1 0
  obtain ⟨others, rfl, shaped, again⟩ :=
    RecordType.again_of_fromNode fitting reads attributesDrawn drawn back
  rw [back] at parsed
  exact ⟨text, attributes, inside, others, wrote, spelt, attributesDrawn, drawn, parsed, shaped, again⟩

theorem write_eq_of_again (fitting : type.Throughout Field.Fitting)
    (isRoot : b.rootType = .ok type) {name : String} (named : b.schema.rootElement = .text name)
    (plain : IsPlainName name) {options : IntakeOptions} (deep : options.depthLimit = none)
    (store : FileStore) {items : List (Field × Value)} (steady : Conforms Field.Steady items)
    {attributes : List (String × String)} {inside : Forest} {text : String}
    (attributesDrawn : DrawsAttributes items attributes) (drawn : Draws items inside)
    (spelt : text.toList = declaration.toList ++ elementChars 0 name attributes inside)
    {others : List Value} (again : Again items (presentItems type.fields others))
    (lasts : type.Holds Field.Lasts (.record type.layout others)) :
    b.write (.record type.layout others) = .ok text := by
  have formatted := lasts.imp fun _ _ _ item => item.formatted
  obtain ⟨text', values, attributes', inside', same, wrote, spelt', attributesDrawn', drawn', _⟩ :=
    exists_document fitting isRoot named plain deep store formatted
  obtain rfl := (Value.record.inj same).2
  obtain rfl := attributesDrawn'.unique (again.drawsAttributes steady attributesDrawn)
  obtain rfl := drawn'.unique (again.draws steady drawn)
  obtain rfl := String.toList_injective (spelt'.trans spelt.symm)
  exact wrote

theorem holds_settles_of_rewritten (fitting : type.Throughout Field.Fitting)
    (isRoot : b.rootType = .ok type) {name : String} (named : b.schema.rootElement = .text name)
    (plain : IsPlainName name) {options : IntakeOptions} (baseFit : LegibleBase options.base)
    (deep : options.depthLimit = none) {store : FileStore} {record first : Value}
    (reads : type.Reads record) (ready : type.Holds Field.Ready record) {text text' : String}
    {others : List Notice} (wrote : b.write record = .ok text)
    (parsed : b.parse options store (.characters text) = .ok ⟨some first, others⟩)
    (rewrote : b.write first = .ok text') : type.Holds Field.Settles record := by
  obtain ⟨type', _, isRoot', _, readsFirst⟩ := reads_of_parse baseFit parsed
  obtain rfl := Except.ok.inj (isRoot.symm.trans isRoot')
  have formatted := holds_formatted_of_write fitting named reads wrote
  obtain ⟨text'', values, attributes, inside, rfl, wrote', _, attributesDrawn, drawn, parsed'⟩ :=
    exists_document fitting isRoot named plain deep store formatted
  obtain rfl := Except.ok.inj (wrote.symm.trans wrote')
  rw [parsed', map_eq_ok_iff] at parsed
  obtain ⟨w, back, isFirst⟩ := parsed
  obtain rfl := Option.some.inj (Intake.mk.inj isFirst).1
  obtain ⟨values', rfl, shaped, again⟩ :=
    RecordType.again_of_fromNode fitting reads attributesDrawn drawn back
  obtain ⟨_, same, _, formattedFirst⟩ := holds_formatted_of_write fitting named readsFirst rewrote
  obtain rfl := (Value.record.inj same).2
  obtain ⟨_, same, shapedRecord, readyItems⟩ := ready
  obtain rfl := (Value.record.inj same).2
  refine ⟨_, rfl, shapedRecord, again.conforms_back readyItems formattedFirst ?_⟩
  intro f codec v w isReady rereads formatted
  refine isReady.settles_of_written rereads fun present => ?_
  obtain ⟨text, written, _⟩ := formatted present
  exact ⟨text, written⟩

/-- Canonicalisation settles: the record of a document can be written, read and written twice with
the same text the second time, exactly if the conversions it needs never fail. -/
theorem canonical_iff_settles (loaded : Schema.load definition source = .ok s)
    (bound : bind s = .ok b) (names : s.PlainNames)
    (rootPlain : ∀ name, s.rootElement = .text name → IsPlainName name)
    (defaults : s.LegibleDefaults) {options : IntakeOptions} (baseFit : LegibleBase options.base)
    (deep : options.depthLimit = none) {store : FileStore} {document : Source} {record : Value}
    {notices : List Notice}
    (taken : b.parse options store document = .ok ⟨some record, notices⟩)
    (numbers : record.Repeats)
    (defaultNumbers : ∀ type, b.rootType = .ok type → type.Throughout Field.DefaultsRepeat) :
    (∃ text first text' second others others', b.write record = .ok text ∧
        b.parse options store (.characters text) = .ok ⟨some first, others⟩ ∧
        b.write first = .ok text' ∧
        b.parse options store (.characters text') = .ok ⟨some second, others'⟩ ∧
        b.write second = .ok text') ↔
      b.Settles record := by
  obtain ⟨type, name, isRoot, named, reads⟩ := reads_of_parse baseFit taken
  obtain ⟨label, member⟩ := mem_of_rootType isRoot
  have fitting := fitting_of_bind loaded bound names defaults _ member
  have plain : IsPlainName name := rootPlain name (schema_of_bind bound ▸ named)
  have ready := RecordType.holds_ready fitting (defaultNumbers type isRoot) reads numbers
  constructor
  · rintro ⟨text, first, text', _, others, _, wrote, parsed, rewrote, _⟩
    exact ⟨type, isRoot, holds_settles_of_rewritten fitting isRoot named plain baseFit deep reads
      ready wrote parsed rewrote⟩
  · rintro ⟨type', isRoot', settles⟩
    obtain rfl := Except.ok.inj (isRoot.symm.trans isRoot')
    have lasts : type.Holds Field.Lasts record := ready.and settles
    have ⟨values, isRecord, _, items⟩ := lasts
    subst isRecord
    -- the first round may change items, which last and are steady afterwards
    obtain ⟨text, _, _, first, wrote, _, _, _, parsed, shaped, again⟩ :=
      exists_again fitting isRoot named plain deep store reads lasts
    have firstItems := again.lasts items
    have firstLasts : type.Holds Field.Lasts (.record type.layout first) :=
      ⟨first, rfl, shaped, firstItems.imp fun _ _ _ both => both.1⟩
    obtain ⟨type', _, isRoot', _, readsFirst⟩ := reads_of_parse baseFit parsed
    obtain rfl := Except.ok.inj (isRoot.symm.trans isRoot')
    obtain ⟨text', _, _, second, wroteFirst, spelt, attributesDrawn, drawn, parsedFirst,
      shapedSecond, again'⟩ := exists_again fitting isRoot named plain deep store readsFirst firstLasts
    have secondItems := again'.lasts (firstItems.imp fun _ _ _ both => both.1)
    have wroteSecond := write_eq_of_again fitting isRoot named plain deep store
      (firstItems.imp fun _ _ _ both => both.2) attributesDrawn drawn spelt again'
      ⟨second, rfl, shapedSecond, secondItems.imp fun _ _ _ both => both.1⟩
    exact ⟨text, _, text', _, [], [], wrote, parsed, wroteFirst, parsedFirst, wroteSecond⟩

theorem settles_returnNote :
    gaugeBound.Settles (.record gaugeType.layout [.list [], .text "a\x0db"]) := by
  refine ⟨gaugeType, rfl, _, rfl, ?_, ?_⟩
  · exact .cons (fun _ => ⟨[], rfl⟩) (.cons (by simp [Field.key]) .nil)
  · exact .simple rfl ⟨trivial, by simp⟩ .nil

theorem defaultsRepeat_gauge : gaugeType.Throughout Field.DefaultsRepeat := by
  refine .mk ?_ fun f member inner nested => ?_
  · simp [Field.DefaultsRepeat, Field.default, Value.Repeats, Value.reals]
  · obtain rfl | rfl : f = _ ∨ f = _ := by simpa using member
    · obtain rfl := Option.some.inj nested
      refine .mk ?_ fun f member inner nested => ?_
      · simp [Field.DefaultsRepeat, Field.default, Value.Repeats, Value.reals]
      · rw [List.mem_singleton.mp member] at nested
        cases nested
    · cases nested

/-- A text with a carriage return is rewritten with a line feed, and stays so. -/
theorem canonical_returnNote :
    gaugeBound.parse .unlimited (FileStore.empty [])
        (.characters "<gauge><note>a&#13;b</note></gauge>") =
      .ok ⟨some (.record gaugeType.layout [.list [], .text "a\x0db"]), []⟩ ∧
    ∃ text first text' second others others',
      gaugeBound.write (.record gaugeType.layout [.list [], .text "a\x0db"]) = .ok text ∧
      gaugeBound.parse .unlimited (FileStore.empty []) (.characters text) =
        .ok ⟨some first, others⟩ ∧
      gaugeBound.write first = .ok text' ∧
      gaugeBound.parse .unlimited (FileStore.empty []) (.characters text') =
        .ok ⟨some second, others'⟩ ∧
      gaugeBound.write second = .ok text' := by
  refine ⟨parse_returnNote, (canonical_iff_settles load_gaugeDefinition bind_gaugeSchema
    plainNames_gaugeSchema (fun _ => plain_rootElement_gaugeSchema) legibleDefaults_gaugeSchema
    legibleBase_none rfl parse_returnNote ?_ ?_).mpr settles_returnNote⟩
  · simp [Value.Repeats, Value.reals, Value.realsOfAll]
  · intro type isRoot
    obtain rfl := Except.ok.inj (isRoot.symm.trans (show gaugeBound.rootType = .ok gaugeType from rfl))
    exact defaultsRepeat_gauge

end BoundSchema

/-! ### A tag that hides a conversion -/

/-- The enumeration whose only text is the name of the conversion to texts. -/
def hidingMode : Enumeration := ⟨"Mode", [("to_string", "to_string")]⟩

def modeType : RecordType :=
  .mk "Sole" "Sole" [.simple ⟨"mode", "mode", true, .once⟩ (.enumeration hidingMode) .absent]

def modeBound : BoundSchema :=
  ⟨modeSchema "to_string", [(.text "Mode", hidingMode)], [(.text "Sole", modeType)]⟩

/-- The record of a mode whose tag hides the conversion of tags to texts. -/
def hidingRecord : Value := .record modeType.layout [.tag hidingMode ⟨"to_string", 0⟩]

theorem bind_modeSchema : BoundSchema.bind (modeSchema "to_string") = .ok modeBound := by
  rfl

theorem parse_hidingRecord :
    modeBound.parse .unlimited (FileStore.empty []) (.characters ("<?xml version=\"1.0\"" ++
        " encoding=\"utf-8\"?>\n<sole mode=\"to_string\">\n</sole>\n")) =
      .ok ⟨some hidingRecord, []⟩ := by
  have attributesFit : PlainAttributes [("mode", "to_string")] :=
    ⟨by decide, by decide, List.forall_mem_singleton.mpr (legible_of_all (by decide))⟩
  have back : modeType.fromNode (.element (plainTag "sole" [("mode", "to_string")])
      (Forest.nil.normalized.nodes 1 0)) = .ok hidingRecord := rfl
  have insideFit : Forest.Plain .nil := trivial
  have isRoot : modeBound.rootType = .ok modeType := rfl
  have named : modeBound.schema.rootElement = .text "sole" := rfl
  have plain : IsPlainName "sole" := by decide
  rw [BoundSchema.parse, isRoot]
  simp only [bind, Except.bind]
  rw [Intake.parse_declared rfl (FileStore.empty []) named plain attributesFit insideFit
    (by decide +kernel), back]
  rfl

namespace BoundSchema

/-- A schema may declare a text whose tag takes the place of the conversion to texts: its documents
give records that cannot be written. -/
theorem not_canonical_hidingRecord :
    Schema.load (modeDefinition "to_string") (.text "sole") = .ok (modeSchema "to_string") ∧
      bind (modeSchema "to_string") = .ok modeBound ∧ (modeSchema "to_string").PlainNames ∧
      (modeSchema "to_string").LegibleDefaults ∧
      modeBound.parse .unlimited (FileStore.empty []) (.characters ("<?xml version=\"1.0\"" ++
          " encoding=\"utf-8\"?>\n<sole mode=\"to_string\">\n</sole>\n")) =
        .ok ⟨some hidingRecord, []⟩ ∧
      modeBound.write hidingRecord = .error (.codec .wrongKind) := by
  refine ⟨rfl, bind_modeSchema, ?_, ?_, parse_hidingRecord, ?_⟩
  · constructor
    · simp [modeSchema]
      decide
    · simp [modeSchema]
  · simp [Schema.LegibleDefaults, modeSchema]
  · rw [write, Value.writeDocument, hidingRecord, Value.writeElement]
    rfl

end BoundSchema

end XmlRecords
