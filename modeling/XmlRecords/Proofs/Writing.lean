import XmlRecords.Proofs.Binding
import XmlRecords.Proofs.Forest
import XmlRecords.Proofs.Items
import XmlRecords.Record.Canonical

/-!
What a record is written as: one element, whose attributes and children are the items of its fields
and nothing else.
-/

set_option autoImplicit false
set_option relaxedAutoImplicit false

namespace XmlRecords

open Xml

def Field.Writable (fields : List Field) : Prop :=
  Field.Sound fields ∧ ∀ f ∈ fields, IsPlainName f.key.xmlName

def Formatted (_ : Field) (codec : Codec) (item : Value) : Prop :=
  ∃ text, codec.write item = .ok text ∧ ∀ c ∈ text.toList, isXmlChar c = true

/-- The attributes that items stand for, in their order, with the texts of the items. -/
def DrawsAttributes (items : List (Field × Value)) (attributes : List (String × String)) : Prop :=
  List.Forall₂ (fun entry a => a.1 = entry.1.key.xmlName ∧
    ∃ codec, entry.1.codec? = some codec ∧ codec.write entry.2 = .ok a.2)
    (items.filter (·.1.key.isAttribute)) attributes

/-- The row of elements that items stand for, in their order: simple items with their texts, records
with the attributes and elements of their own items. -/
inductive Draws : List (Field × Value) → Forest → Prop
  | nil : Draws [] .nil
  | value {f : Field} {item : Value} {rest : List (Field × Value)} {row : Forest} :
      f.key.isAttribute = true → Draws rest row → Draws ((f, item) :: rest) row
  | text {f : Field} {codec : Codec} {item : Value} {content : String}
      {rest : List (Field × Value)} {row : Forest} :
      f.key.isAttribute = false → f.codec? = some codec → codec.write item = .ok content →
      Draws rest row → Draws ((f, item) :: rest) (.text f.key.xmlName content row)
  | record {f : Field} {inner : RecordType} {values : List Value}
      {attributes : List (String × String)} {inside : Forest} {rest : List (Field × Value)}
      {row : Forest} :
      f.key.isAttribute = false → f.type? = some inner →
      DrawsAttributes (presentItems inner.fields values) attributes →
      Draws (presentItems inner.fields values) inside → Draws rest row →
      Draws ((f, .record inner.layout values) :: rest)
        (.element f.key.xmlName attributes inside row)

/-! ### Names -/

theorem field_ne_write (name : String) : Identifier.field name ≠ "write" := by
  have guarded (word : String) : (if Identifier.keywords.contains word ||
      Identifier.recordMethods.contains word then word ++ "_" else word) ≠ "write" := by
    split
    · intro same
      have last := congrArg (fun s : String => s.toList.getLast?) same
      simp at last
    · rename_i free
      rintro rfl
      exact free (by decide)
  exact guarded _

theorem writes_of_sound {fields : List Field} (sound : Field.Sound fields) :
    (fields.map Field.slot).any (·.name == "write") = false := by
  rw [List.any_map, List.any_eq_false]
  intro f member same
  have named := sound.named f member
  have isWrite : f.key.name = "write" := by simpa using same
  exact field_ne_write f.key.xmlName (named.symm.trans isWrite)

/-! ### Attributes -/

theorem written_eq {f : Field} {v : Value}
    (shaped : f.key.occurrence = .repeated → ∃ items, v = .list items) :
    f.slot.written v = .ok (f.present v) := by
  unfold Slot.written Field.present
  rw [Field.slot_occurrence]
  cases occurs : f.key.occurrence with
  | repeated =>
    obtain ⟨items, rfl⟩ := shaped occurs
    rfl
  | once => rfl
  | optional => cases v <;> rfl

theorem exists_texts {f : Field} {codec : Codec} {items : List Value}
    (formatted : ∀ item ∈ items, Formatted f codec item) :
    ∃ texts, List.Forall₂ (fun item text => codec.write item = .ok text) items texts ∧
      ∀ text ∈ texts, ∀ c ∈ text.toList, isXmlChar c = true := by
  induction items with
  | nil => exact ⟨[], .nil, by simp⟩
  | cons item items ih =>
    obtain ⟨text, written, fit⟩ := formatted item List.mem_cons_self
    obtain ⟨texts, related, allFit⟩ := ih fun other member =>
      formatted other (List.mem_cons_of_mem item member)
    exact ⟨text :: texts, .cons written related, List.forall_mem_cons.mpr ⟨fit, allFit⟩⟩

theorem writeAttribute_eq {f : Field} {v : Value} {codec : Codec} (simple : f.codec? = some codec)
    (shaped : f.key.occurrence = .repeated → ∃ items, v = .list items) {texts : List String}
    (related : List.Forall₂ (fun item text => codec.write item = .ok text) (f.present v) texts) :
    f.slot.writeAttribute v = .ok (String.join (texts.map (attributeText f.key.xmlName))) := by
  have written : (f.present v).mapM (fun value => ofCodec (codec.write value)) = .ok texts := by
    rw [mapM_eq_ok_iff]
    exact related.imp fun item text wrote => mapError_eq_ok_iff.mpr wrote
  simp only [Slot.writeAttribute, written_eq shaped, Field.slot_codec, simple, bind, Except.bind,
    Field.slot_xmlName] at written ⊢
  rw [written]
  rfl

theorem filter_presentItems_cons (p : Field → Bool) (f : Field) (fields : List Field) (v : Value)
    (values : List Value) :
    (presentItems (f :: fields) (v :: values)).filter (fun entry => p entry.1) =
      (if p f then (f.present v).map (f, ·) else []) ++
        (presentItems fields values).filter fun entry => p entry.1 := by
  rw [presentItems, List.filter_append, List.filter_map]
  cases holds : p f <;> simp [Function.comp_def, holds]

theorem writeAttributes_eq {fields : List Field} {values : List Value}
    (shaped : Shaped fields values)
    (simple : ∀ f ∈ fields, f.key.isAttribute = true → ∃ codec, f.codec? = some codec)
    (formatted : ∀ entry ∈ presentItems fields values, ∀ codec,
      entry.1.codec? = some codec → Formatted entry.1 codec entry.2) :
    ∃ text attributes, writeAttributes (fields.map Field.slot) values = .ok text ∧
      text.toList = attributes.flatMap attributeChars ∧
      DrawsAttributes (presentItems fields values) attributes ∧
      ∀ a ∈ attributes, ∀ c ∈ a.2.toList, isXmlChar c = true := by
  induction shaped with
  | nil => exact ⟨"", [], rfl, rfl, .nil, by simp⟩
  | @cons f v fields values shape _ ih =>
    obtain ⟨text, attributes, written, spelt, drawn, fit⟩ :=
      ih (fun g member => simple g (List.mem_cons_of_mem f member))
        fun entry member => formatted entry (List.mem_append_right _ member)
    unfold DrawsAttributes at drawn ⊢
    rw [filter_presentItems_cons (fun g => g.key.isAttribute), List.map_cons, writeAttributes,
      Field.slot_isAttribute]
    cases isAttribute : f.key.isAttribute with
    | false =>
      rw [if_neg (by simp), if_neg (by simp), List.nil_append]
      exact ⟨text, attributes, written, spelt, drawn, fit⟩
    | true =>
      obtain ⟨codec, isSimple⟩ := simple f List.mem_cons_self isAttribute
      have own : ∀ item ∈ f.present v, Formatted f codec item := by
        intro item member
        exact formatted (f, item) (List.mem_append_left _ (List.mem_map_of_mem member)) codec isSimple
      obtain ⟨texts, related, allFit⟩ := exists_texts own
      refine ⟨String.join (texts.map (attributeText f.key.xmlName)) ++ text,
        texts.map (f.key.xmlName, ·) ++ attributes, ?_, ?_, ?_, ?_⟩
      · rw [if_pos rfl, writeAttribute_eq isSimple shape related, written]
        rfl
      · rw [String.toList_append, String.toList_join, spelt, List.flatMap_append]
        simp [List.flatMap_map, toList_attributeText]
      · rw [if_pos rfl]
        refine List.rel_append ?_ drawn
        rw [List.forall₂_map_left_iff, List.forall₂_map_right_iff]
        exact related.imp fun item text wrote => ⟨rfl, codec, isSimple, wrote⟩
      · intro a member
        rcases List.mem_append.mp member with here | below
        · obtain ⟨text', inside, rfl⟩ := List.mem_map.mp here
          exact allFit text' inside
        · exact fit a below

theorem exists_text_of_writeAttributes {fields : List Field} {values : List Value}
    (shaped : Shaped fields values) {text : String}
    (written : writeAttributes (fields.map Field.slot) values = .ok text) :
    ∀ entry ∈ presentItems fields values, entry.1.key.isAttribute = true → ∀ codec,
      entry.1.codec? = some codec → ∃ text, codec.write entry.2 = .ok text := by
  induction shaped generalizing text with
  | nil => simp [presentItems]
  | @cons f v fields values shape _ ih =>
    rw [List.map_cons, writeAttributes, Field.slot_isAttribute] at written
    intro entry member isAttribute codec isSimple
    rcases List.mem_append.mp member with here | below
    · obtain ⟨item, inside, rfl⟩ := List.mem_map.mp here
      have isTrue : f.key.isAttribute = true := isAttribute
      have simple : f.codec? = some codec := isSimple
      rw [if_pos isTrue] at written
      obtain ⟨own, wrote, _⟩ := bind_eq_ok_iff.mp written
      simp only [Slot.writeAttribute, written_eq shape, Field.slot_codec, simple, bind_eq_ok_iff,
        Except.ok.injEq, exists_eq_left'] at wrote
      obtain ⟨texts, each, _⟩ := wrote
      obtain ⟨itemText, _, itemWrote⟩ := exists_of_forall₂_left (mapM_eq_ok_iff.mp each) inside
      exact ⟨itemText, mapError_eq_ok_iff.mp itemWrote⟩
    · split at written
      · obtain ⟨_, _, written⟩ := bind_eq_ok_iff.mp written
        obtain ⟨rest, wrote, _⟩ := bind_eq_ok_iff.mp written
        exact ih wrote entry below isAttribute codec isSimple
      · exact ih written entry below isAttribute codec isSimple

/-! ### Elements -/

theorem writeItems_eq {depth : Int} {slot : Slot} {items : List Value} {texts : List String}
    (written : List.Forall₂ (fun item text => Value.writeItem depth slot item = .ok text)
      items texts) : Value.writeItems depth slot items = .ok (String.join texts) := by
  induction written with
  | nil => simp [Value.writeItems]
  | cons head _ ih =>
    rw [Value.writeItems, head, ih, String.join_cons]
    rfl

theorem writeSimple_eq_writeItem (depth : Int) (slot : Slot) {v : Value}
    (other : ∀ layout values, v ≠ .record layout values) :
    Value.writeSimple depth slot v = Value.writeItem depth slot v := by
  rw [Value.writeItem, Value.writeSimple]
  cases slot.codec with
  | some codec => rfl
  | none =>
    cases v with
    | record layout values => exact absurd rfl (other layout values)
    | _ => simp only [Value.writeElement]

theorem writeField_eq_writeItem {depth : Int} {slot : Slot} {v : Value}
    (single : slot.occurrence ≠ .repeated) (present : slot.occurrence = .optional → v ≠ .absent) :
    Value.writeField depth slot v = Value.writeItem depth slot v := by
  cases v with
  | list items =>
    rw [Value.writeField, ← writeSimple_eq_writeItem depth slot (by simp)]
    cases occurs : slot.occurrence with
    | repeated => exact absurd occurs single
    | once => rfl
    | optional => rfl
  | absent =>
    rw [Value.writeField, ← writeSimple_eq_writeItem depth slot (by simp)]
    cases occurs : slot.occurrence with
    | repeated => exact absurd occurs single
    | once => rfl
    | optional => exact absurd rfl (present occurs)
  | text s =>
    rw [Value.writeField, ← writeSimple_eq_writeItem depth slot (by simp)]
    cases occurs : slot.occurrence with
    | repeated => exact absurd occurs single
    | once => rfl
    | optional => rfl
  | _ =>
    rw [Value.writeField]
    · cases occurs : slot.occurrence with
      | repeated => exact absurd occurs single
      | once => rfl
      | optional => rfl
    all_goals simp

theorem writeField_eq {depth : Int} {f : Field} {v : Value} {texts : List String}
    (shaped : f.key.occurrence = .repeated → ∃ items, v = .list items)
    (written : List.Forall₂ (fun item text => Value.writeItem depth f.slot item = .ok text)
      (f.present v) texts) : Value.writeField depth f.slot v = .ok (String.join texts) := by
  have one (single : f.key.occurrence ≠ .repeated)
      (present : f.key.occurrence = .optional → v ≠ .absent)
      (written : List.Forall₂ (fun item text => Value.writeItem depth f.slot item = .ok text)
        [v] texts) : Value.writeField depth f.slot v = .ok (String.join texts) := by
    obtain ⟨text, rest, head, tail, rfl⟩ := List.forall₂_cons_left_iff.mp written
    rw [List.forall₂_nil_left_iff] at tail
    subst rest
    rw [writeField_eq_writeItem single present, head, String.join_cons, String.join_nil,
      String.append_empty]
  cases occurs : f.key.occurrence with
  | repeated =>
    obtain ⟨items, rfl⟩ := shaped occurs
    rw [Field.present_repeated occurs] at written
    rw [Value.writeField, Field.slot_occurrence, occurs]
    exact writeItems_eq written
  | once =>
    rw [Field.present_once occurs] at written
    exact one (by simp [occurs]) (by simp [occurs]) written
  | optional =>
    by_cases absent : v = .absent
    · subst absent
      rw [Field.present_absent occurs, List.forall₂_nil_left_iff] at written
      subst texts
      rw [Value.writeField, Field.slot_occurrence, occurs]
      rfl
    · rw [Field.present_optional occurs absent] at written
      exact one (by simp [occurs]) (fun _ => absent) written

theorem writeFields_eq {depth : Int} {fields : List Field} {values : List Value}
    (shaped : Shaped fields values) {texts : List String}
    (written : List.Forall₂ (fun entry text =>
        Value.writeItem depth entry.1.slot entry.2 = .ok text)
      ((presentItems fields values).filter (fun entry => !entry.1.key.isAttribute)) texts) :
    Value.writeFields depth (fields.map Field.slot) values = .ok (String.join texts) := by
  induction shaped generalizing texts with
  | nil =>
    rw [presentItems, List.filter_nil, List.forall₂_nil_left_iff] at written
    · subst texts
      simp [Value.writeFields]
    · simp
  | @cons f v fields values shape _ ih =>
    rw [filter_presentItems_cons (fun g => !g.key.isAttribute)] at written
    rw [List.map_cons, Value.writeFields, Field.slot_isAttribute]
    cases isAttribute : f.key.isAttribute with
    | true =>
      rw [isAttribute, if_neg (by simp), List.nil_append] at written
      rw [if_pos rfl]
      exact ih written
    | false =>
      rw [isAttribute, if_pos (by simp)] at written
      obtain ⟨own, others, rfl, first, rest⟩ := exists_append_of_forall₂ written
      rw [List.forall₂_map_left_iff] at first
      rw [if_neg (by simp), writeField_eq shape first, ih rest, String.join_append]
      rfl

theorem exists_text_of_writeItems {depth : Int} {slot : Slot} {items : List Value} {text : String}
    (written : Value.writeItems depth slot items = .ok text) :
    ∀ item ∈ items, ∃ text, Value.writeItem depth slot item = .ok text := by
  induction items generalizing text with
  | nil => simp
  | cons item items ih =>
    rw [Value.writeItems] at written
    obtain ⟨own, wrote, written⟩ := bind_eq_ok_iff.mp written
    obtain ⟨rest, wroteRest, _⟩ := bind_eq_ok_iff.mp written
    exact List.forall_mem_cons.mpr ⟨⟨own, wrote⟩, ih wroteRest⟩

theorem exists_text_of_writeField {depth : Int} {f : Field} {v : Value} {text : String}
    (shaped : f.key.occurrence = .repeated → ∃ items, v = .list items)
    (written : Value.writeField depth f.slot v = .ok text) :
    ∀ item ∈ f.present v, ∃ text, Value.writeItem depth f.slot item = .ok text := by
  cases occurs : f.key.occurrence with
  | repeated =>
    obtain ⟨items, rfl⟩ := shaped occurs
    rw [Value.writeField, Field.slot_occurrence, occurs] at written
    rw [Field.present_repeated occurs]
    exact exists_text_of_writeItems written
  | once =>
    rw [writeField_eq_writeItem (by simp [occurs]) (by simp [occurs])] at written
    rw [Field.present_once occurs]
    exact List.forall_mem_singleton.mpr ⟨text, written⟩
  | optional =>
    by_cases absent : v = .absent
    · rw [absent, Field.present_absent occurs]
      simp
    · rw [writeField_eq_writeItem (by simp [occurs]) (fun _ => absent)] at written
      rw [Field.present_optional occurs absent]
      exact List.forall_mem_singleton.mpr ⟨text, written⟩

theorem exists_text_of_writeFields {depth : Int} {fields : List Field} {values : List Value}
    (shaped : Shaped fields values) {text : String}
    (written : Value.writeFields depth (fields.map Field.slot) values = .ok text) :
    ∀ entry ∈ presentItems fields values, entry.1.key.isAttribute = false →
      ∃ text, Value.writeItem depth entry.1.slot entry.2 = .ok text := by
  induction shaped generalizing text with
  | nil => simp [presentItems]
  | @cons f v fields values shape _ ih =>
    rw [List.map_cons, Value.writeFields, Field.slot_isAttribute] at written
    intro entry member element
    rcases List.mem_append.mp member with here | below
    · obtain ⟨item, inside, rfl⟩ := List.mem_map.mp here
      have isFalse : f.key.isAttribute = false := element
      rw [if_neg (by simp [isFalse])] at written
      obtain ⟨own, wrote, _⟩ := bind_eq_ok_iff.mp written
      exact exists_text_of_writeField shape wrote item inside
    · split at written
      · exact ih written entry below element
      · obtain ⟨_, _, written⟩ := bind_eq_ok_iff.mp written
        obtain ⟨rest, wrote, _⟩ := bind_eq_ok_iff.mp written
        exact ih wrote entry below element

/-! ### Records -/

theorem Field.Sound.xmlNames_nodup {fields : List Field} (sound : Field.Sound fields) :
    (fields.map (·.key.xmlName)).Nodup := by
  have names : fields.map (·.key.name) =
      (fields.map (·.key.xmlName)).map Identifier.field := by
    simp only [List.map_map, Function.comp_def]
    exact List.map_congr_left sound.named
  have distinct := sound.distinct
  rw [names] at distinct
  exact distinct.of_map

theorem attributeNames_sublist {fields : List Field}
    (single : ∀ f ∈ fields, f.key.isAttribute = true → f.key.occurrence ≠ .repeated)
    (values : List Value) :
    List.Sublist (((presentItems fields values).filter (·.1.key.isAttribute)).map (·.1.key.xmlName))
      (fields.map (·.key.xmlName)) := by
  induction fields generalizing values with
  | nil => simp [presentItems]
  | cons f fields ih =>
    cases values with
    | nil => simp [presentItems]
    | cons v values =>
      have below := ih (fun g member => single g (List.mem_cons_of_mem f member)) values
      rw [filter_presentItems_cons (fun g => g.key.isAttribute), List.map_append, List.map_cons]
      have own : List.Sublist ((if f.key.isAttribute then (f.present v).map (f, ·) else []).map
          fun entry : Field × Value => entry.1.key.xmlName) [f.key.xmlName] := by
        cases isAttribute : f.key.isAttribute with
        | false => simp
        | true =>
          have few := Field.length_present_le_one (single f List.mem_cons_self isAttribute) v
          rw [if_pos rfl]
          match present : f.present v, few with
          | [], _ => simp
          | [item], _ => simp
      exact own.append below

theorem plainAttributes_of_draws {fields : List Field} (writable : Field.Writable fields)
    {values : List Value} {attributes : List (String × String)}
    (drawn : DrawsAttributes (presentItems fields values) attributes)
    (fit : ∀ a ∈ attributes, ∀ c ∈ a.2.toList, isXmlChar c = true) : PlainAttributes attributes := by
  have names : attributes.map (·.1) =
      ((presentItems fields values).filter (·.1.key.isAttribute)).map (·.1.key.xmlName) := by
    have same : List.Forall₂ (fun a (entry : Field × Value) => a.1 = entry.1.key.xmlName)
        attributes ((presentItems fields values).filter (·.1.key.isAttribute)) :=
      drawn.flip.imp fun _ _ related => related.1
    rw [← List.forall₂_eq_eq_eq, List.forall₂_map_left_iff, List.forall₂_map_right_iff]
    exact same
  refine ⟨?_, ?_, fit⟩
  · rw [names]
    exact (attributeNames_sublist writable.1.single values).nodup writable.1.xmlNames_nodup
  · intro a member
    have listed : a.1 ∈ attributes.map (·.1) := List.mem_map_of_mem member
    rw [names] at listed
    obtain ⟨entry, inside, same⟩ := List.mem_map.mp listed
    rw [← same]
    exact writable.2 _ (mem_presentItems (List.mem_of_mem_filter inside))

/-- A record is written as one element, given its element items are written inside. -/
theorem writeElement_eq {type : RecordType} (writable : Field.Writable type.fields)
    {values : List Value} (shaped : Shaped type.fields values)
    (formatted : ∀ entry ∈ presentItems type.fields values, ∀ codec,
      entry.1.codec? = some codec → Formatted entry.1 codec entry.2) {depth : Int}
    {inside : Forest} {texts : List String}
    (written : List.Forall₂ (fun entry text =>
        Value.writeItem (depth + 1) entry.1.slot entry.2 = .ok text)
      ((presentItems type.fields values).filter (fun entry => !entry.1.key.isAttribute)) texts)
    (spelt : '\n' :: (texts.flatMap String.toList ++ (indent depth).toList) =
      inside.chars (depth + 1) depth) (name : String) :
    ∃ text attributes,
      Value.writeElement name depth (.record type.layout values) = .ok text ∧
      text.toList = (indent depth).toList ++ elementChars depth name attributes inside ∧
      DrawsAttributes (presentItems type.fields values) attributes ∧ PlainAttributes attributes := by
  obtain ⟨attributeTexts, attributes, wroteAttributes, speltAttributes, drawn, fit⟩ :=
    writeAttributes_eq shaped writable.1.simple formatted
  have wroteElements := writeFields_eq shaped written
  have free : type.layout.slots.any (·.name == "write") = false := writes_of_sound writable.1
  refine ⟨indent depth ++ "<" ++ name ++ attributeTexts ++ ">\n" ++ String.join texts ++
    indent depth ++ "</" ++ name ++ ">\n", attributes, ?_, ?_, drawn,
    plainAttributes_of_draws writable drawn fit⟩
  · have slots : type.layout.slots = type.fields.map Field.slot := rfl
    rw [Value.writeElement, free, slots, wroteAttributes, wroteElements]
    rfl
  · rw [elementChars, ← spelt]
    simp [openingChars, closingChars, speltAttributes, String.toList_join]

/-- Items of plain names, and records among them of writable types. -/
def PlainItems (items : List (Field × Value)) : Prop :=
  ∀ entry ∈ items, IsPlainName entry.1.key.xmlName ∧
    ∀ inner, entry.1.type? = some inner → inner.Throughout Field.Writable

theorem plainItems_of_throughout {type : RecordType} (writable : type.Throughout Field.Writable)
    (values : List Value) : PlainItems (presentItems type.fields values) := by
  intro entry member
  have belongs := mem_presentItems member
  exact ⟨writable.fields.2 _ belongs, fun inner nested => writable.inner belongs nested⟩

theorem writeItem_simple {depth : Int} {f : Field} {codec : Codec} (isSimple : f.codec? = some codec)
    {item : Value} {content : String} (written : codec.write item = .ok content) :
    Value.writeItem depth f.slot item = .ok (textElement f.key.xmlName content depth) := by
  rw [Value.writeItem, Field.slot_codec, isSimple]
  simp only [Value.writeSimple, Field.slot_codec, isSimple, written, ofCodec, Except.mapError, bind,
    Except.bind, pure, Except.pure, Field.slot_xmlName]

/-- Items are written as texts, and these are the characters of a row of elements, one line after
another. -/
structure WritesRow (depth : Int) (items : List (Field × Value)) (row : Forest)
    (texts : List String) : Prop where
  drawn : Draws items row
  plain : row.Plain
  written : List.Forall₂ (fun entry text => Value.writeItem depth entry.1.slot entry.2 = .ok text)
    (items.filter (fun entry => !entry.1.key.isAttribute)) texts
  /-- Each element closes its line, which the next one or the end tag after the row starts from. -/
  spelt : ∀ outer, '\n' :: (texts.flatMap String.toList ++ (indent outer).toList) =
    row.chars depth outer

namespace WritesRow

variable {depth : Int} {items : List (Field × Value)} {row : Forest} {texts : List String} {f : Field}

theorem nil : WritesRow depth [] .nil [] := ⟨.nil, trivial, .nil, fun _ => rfl⟩

theorem value (below : WritesRow depth items row texts) (isAttribute : f.key.isAttribute = true)
    (item : Value) : WritesRow depth ((f, item) :: items) row texts := by
  refine ⟨.value isAttribute below.drawn, below.plain, ?_, below.spelt⟩
  rw [List.filter_cons_of_neg (by simp [isAttribute])]
  exact below.written

theorem text (below : WritesRow depth items row texts) (element : f.key.isAttribute = false)
    {codec : Codec} (isSimple : f.codec? = some codec) (namePlain : IsPlainName f.key.xmlName)
    {item : Value} {content : String} (wrote : codec.write item = .ok content)
    (fit : ∀ c ∈ content.toList, isXmlChar c = true) :
    WritesRow depth ((f, item) :: items) (.text f.key.xmlName content row)
      (textElement f.key.xmlName content depth :: texts) := by
  refine ⟨.text element isSimple wrote below.drawn, ⟨namePlain, fit, below.plain⟩, ?_, ?_⟩
  · rw [List.filter_cons_of_pos (by simp [element])]
    exact .cons (writeItem_simple isSimple wrote) below.written
  · intro outer
    rw [Forest.chars, ← below.spelt]
    simp [textElement, escapeContent, lineStart, openingChars, closingChars]

theorem record (below : WritesRow depth items row texts) (element : f.key.isAttribute = false)
    {inner : RecordType} (nested : f.type? = some inner) (namePlain : IsPlainName f.key.xmlName)
    (writable : Field.Writable inner.fields) {values : List Value}
    (shaped : Shaped inner.fields values)
    (conforms : Conforms Formatted (presentItems inner.fields values)) {inside : Forest}
    {insideTexts : List String}
    (deeper : WritesRow (depth + 1) (presentItems inner.fields values) inside insideTexts) :
    ∃ row texts, WritesRow depth ((f, .record inner.layout values) :: items) row texts := by
  obtain ⟨text, attributes, wrote, textSpelt, attributesDrawn, attributesPlain⟩ :=
    writeElement_eq writable shaped conforms.simple_items deeper.written (deeper.spelt depth)
      f.key.xmlName
  refine ⟨.element f.key.xmlName attributes inside row, text :: texts,
    .record element nested attributesDrawn deeper.drawn below.drawn,
    ⟨namePlain, attributesPlain, deeper.plain, below.plain⟩, ?_, ?_⟩
  · rw [List.filter_cons_of_pos (by simp [element])]
    refine .cons ?_ below.written
    rw [Value.writeItem, Field.slot_codec, Field.codec?_eq_none nested]
    exact wrote
  · intro outer
    rw [Forest.chars, ← below.spelt, List.flatMap_cons, textSpelt, elementChars]
    simp [lineStart]

end WritesRow

theorem exists_row {items : List (Field × Value)} (conforms : Conforms Formatted items)
    (plain : PlainItems items) (depth : Int) : ∃ row texts, WritesRow depth items row texts := by
  induction conforms generalizing depth with
  | nil => exact ⟨_, _, .nil⟩
  | @simple f codec item rest isSimple formatted _ ih =>
    obtain ⟨namePlain, _⟩ := plain (f, item) List.mem_cons_self
    obtain ⟨row, texts, below⟩ :=
      ih (fun entry member => plain entry (List.mem_cons_of_mem _ member)) depth
    obtain ⟨content, wrote, fit⟩ := formatted
    cases isAttribute : f.key.isAttribute with
    | true => exact ⟨_, _, below.value isAttribute item⟩
    | false => exact ⟨_, _, below.text isAttribute isSimple namePlain wrote fit⟩
  | @record f inner values rest nested shaped conforms _ ihInside ihRest =>
    obtain ⟨namePlain, innerWritable⟩ := plain (f, _) List.mem_cons_self
    have writable := innerWritable inner nested
    obtain ⟨row, texts, below⟩ :=
      ihRest (fun entry member => plain entry (List.mem_cons_of_mem _ member)) depth
    cases isAttribute : f.key.isAttribute with
    | true => exact ⟨_, _, below.value isAttribute _⟩
    | false =>
      obtain ⟨inside, insideTexts, deeper⟩ :=
        ihInside (plainItems_of_throughout writable values) (depth + 1)
      exact below.record isAttribute nested namePlain writable.fields shaped conforms deeper

theorem exists_elementChars {type : RecordType} (writable : type.Throughout Field.Writable)
    {v : Value} (holds : type.Holds Formatted v) (name : String) (depth : Int) :
    ∃ text values attributes inside, v = .record type.layout values ∧
      v.writeElement name depth = .ok text ∧
      text.toList = (indent depth).toList ++ elementChars depth name attributes inside ∧
      DrawsAttributes (presentItems type.fields values) attributes ∧
      Draws (presentItems type.fields values) inside ∧
      PlainAttributes attributes ∧ inside.Plain := by
  obtain ⟨values, rfl, shaped, conforms⟩ := holds
  obtain ⟨inside, texts, row⟩ :=
    exists_row conforms (plainItems_of_throughout writable values) (depth + 1)
  obtain ⟨text, attributes, wrote, textSpelt, attributesDrawn, attributesPlain⟩ :=
    writeElement_eq writable.fields shaped conforms.simple_items row.written (row.spelt depth) name
  exact ⟨text, values, attributes, inside, rfl, wrote, textSpelt, attributesDrawn, row.drawn,
    attributesPlain, row.plain⟩

/-! ### Bound schemas -/

/-- The attributes and elements of a schema have plain names. -/
structure Schema.PlainNames (s : Schema) : Prop where
  attributes : ∀ t ∈ s.declared ++ s.undeclared, ∀ a ∈ t.attributes, ∀ name,
    a.name = .text name → IsPlainName name
  elements : ∀ t ∈ s.declared ++ s.undeclared, ∀ e ∈ t.elements, ∀ name,
    e.name = .text name → IsPlainName name

namespace BoundSchema

theorem writable_of_declares {s : Schema} {enumerations : List (Schema.Label × Enumeration)}
    (names : s.PlainNames) {t : Schema.ComplexType} (inSchema : t ∈ s.declared ++ s.undeclared)
    {fields : List Field} (distinct : (fields.map (·.key.name)).Nodup)
    (declared : ∀ f ∈ fields, Declares s enumerations t f) : Field.Writable fields := by
  refine ⟨sound_of_declares distinct declared, ?_⟩
  intro f member
  cases declared f member with
  | value inAttributes isName => exact names.attributes t inSchema _ inAttributes _ isName
  | text inElements isName => exact names.elements t inSchema _ inElements _ isName
  | record inElements isName => exact names.elements t inSchema _ inElements _ isName

theorem writable_of_bind {s : Schema} {b : BoundSchema} (bound : bind s = .ok b)
    (names : s.PlainNames) : ∀ entry ∈ b.records, entry.2.Throughout Field.Writable :=
  throughout_of_bind bound fun _ inSchema _ distinct declared =>
    writable_of_declares names inSchema distinct declared

/-- A record is written as exactly one well-formed element: a reader of documents finds the name it
was written under, the texts of its attribute items as attributes in declaration order, and a row of
the elements of its other items inside, whatever the texts are. -/
theorem writeElement_parses {s : Schema} {b : BoundSchema} (bound : bind s = .ok b)
    (names : s.PlainNames) {label : Schema.Label} {type : RecordType}
    (member : (label, type) ∈ b.records) {v : Value} (holds : type.Holds Formatted v)
    {name : String} (plain : IsPlainName name) (depth : Int) {settings : Settings}
    (deep : settings.depthLimit = none) :
    ∃ text values attributes inside, v = .record type.layout values ∧
      v.writeElement name depth = .ok text ∧
      DrawsAttributes (presentItems type.fields values) attributes ∧
      Draws (presentItems type.fields values) inside ∧
      (Source.characters text).parse? settings =
        some (.element (plainTag name attributes) (inside.normalized.nodes (depth + 1) depth)) := by
  obtain ⟨text, values, attributes, inside, isRecord, wrote, spelt, attributesDrawn, drawn,
    attributesPlain, insidePlain⟩ :=
    exists_elementChars (writable_of_bind bound names _ member) holds name depth
  exact ⟨text, values, attributes, inside, isRecord, wrote, attributesDrawn, drawn,
    parse?_indented deep plain attributesPlain insidePlain depth spelt⟩

theorem plainNames_shelfSchema : shelfSchema.PlainNames := by
  constructor
  · simp [shelfSchema]
    decide
  · simp [shelfSchema]
    decide

theorem writeElement_parses_shelf :
    ∃ text values attributes inside,
      Value.record shelfType.layout [.text "<\"&\n", .list [], .list [
        .record bookType.layout [.absent, .text "]]>"]], .absent] =
          .record shelfType.layout values ∧
      Value.writeElement "shelf" (-1) (.record shelfType.layout [.text "<\"&\n", .list [], .list [
        .record bookType.layout [.absent, .text "]]>"]], .absent]) = .ok text ∧
      DrawsAttributes (presentItems shelfType.fields values) attributes ∧
      Draws (presentItems shelfType.fields values) inside ∧
      (Source.characters text).parse? ⟨⟨none, true, fun _ => none⟩, none⟩ =
        some (.element (plainTag "shelf" attributes) (inside.normalized.nodes (-1 + 1) (-1))) := by
  have bookHolds : Conforms Formatted (presentItems bookType.fields [.absent, .text "]]>"]) :=
    .simple rfl ⟨"]]>", rfl, List.all_eq_true.mp (by decide)⟩ .nil
  have holds : shelfType.Holds Formatted (.record shelfType.layout [.text "<\"&\n", .list [], .list [
      .record bookType.layout [.absent, .text "]]>"]], .absent]) := by
    refine ⟨_, rfl, ?_, ?_⟩
    · exact .cons (by simp [Field.key]) (.cons (by simp [Field.key])
        (.cons (fun _ => ⟨_, rfl⟩) (.cons (by simp [Field.key]) .nil)))
    · refine .simple rfl ⟨"<\"&\n", rfl, List.all_eq_true.mp (by decide)⟩
        (.simple rfl ⟨"", rfl, by simp⟩ ?_)
      refine .record rfl ?_ bookHolds .nil
      exact .cons (by simp [Field.key]) (.cons (by simp [Field.key]) .nil)
  exact writeElement_parses bind_shelfSchema plainNames_shelfSchema shelfType_mem holds (by decide)
    (-1) rfl

end BoundSchema

end XmlRecords
