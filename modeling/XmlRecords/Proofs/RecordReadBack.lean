import XmlRecords.Proofs.ItemReadBack
import XmlRecords.Proofs.Writing

/-!
Records there and back: which of the records that documents give are read again from the elements
they are written as.
-/

set_option autoImplicit false
set_option relaxedAutoImplicit false

namespace XmlRecords

open Xml

/-! ### The items of a record that was read -/

/-- A value is the record of some element with characters that documents may hold. -/
def RecordType.Reads (type : RecordType) (v : Value) : Prop :=
  ∃ tag children, Legible (Node.element tag children).characters ∧
    type.fromNode (.element tag children) = .ok v

def Field.Receives (f : Field) (v : Value) : Prop :=
  (∃ codec, f.codec? = some codec ∧ f.Given codec v) ∨ ∃ inner, f.type? = some inner ∧ inner.Reads v

theorem Field.Item.received {P : Field → Codec → Value → Prop} {f : Field} {v : Value}
    (item : f.Item P v) (received : f.Receives v) :
    (∃ codec, f.codec? = some codec ∧ f.Given codec v ∧ P f codec v) ∨
      ∃ inner, f.type? = some inner ∧ inner.Reads v ∧ inner.Holds P v := by
  rcases received with ⟨codec, simple, given⟩ | ⟨inner, nested, reads⟩
  · exact .inl ⟨codec, simple, given, item.of_simple simple⟩
  · exact .inr ⟨inner, nested, reads, item.of_nested nested⟩

theorem Field.receives_of_itemOf {f : Field} {child : StartTag × List Node} {v : Value}
    (itemOf : f.ItemOf child v) (present : f.key.occurrence = .optional → v ≠ .absent)
    (legible : Legible (Node.element child.1 child.2).characters) : f.Receives v := by
  obtain ⟨codec, simple⟩ | ⟨inner, nested⟩ := f.codec_or_type
  · rw [Field.itemOf_iff_textOf simple] at itemOf
    rw [Node.characters, legible_append] at legible
    exact .inl ⟨codec, simple, present, _, legible_directText legible.2, itemOf⟩
  · rw [Field.itemOf_iff_fromNode nested] at itemOf
    exact .inr ⟨inner, nested, child.1, child.2, legible, itemOf⟩

theorem Field.receives_of_initial {fields : List Field} (sound : Field.Sound fields) {f : Field}
    (member : f ∈ fields) (below : ∀ inner, f.type? = some inner → Field.Sound inner.fields)
    {v : Value} (single : f.key.occurrence ≠ .repeated) (filled : f.initial = .ok v)
    (present : f.key.occurrence = .optional → v ≠ .absent) : f.Receives v := by
  obtain ⟨codec, simple⟩ | ⟨inner, nested⟩ := f.codec_or_type
  · refine .inl ⟨codec, simple, present, "", by simp [Legible], ?_⟩
    rw [Field.TextOf, if_pos rfl, if_neg single]
    exact filled
  · refine .inr ⟨inner, nested, .bare, [], by simp [Legible, Node.characters, StartTag.characters,
      StartTag.bare, Node.charactersOfAll], ?_⟩
    rw [← RecordType.empty_eq_ok_iff (below inner nested)]
    have plain := sound.plain f member (sound.element_of_type member nested)
    cases f with
    | simple key codec default => cases nested
    | nested key inner' default =>
      obtain rfl := Option.some.inj nested
      simp only [Field.default] at plain
      subst plain
      simp only [Field.initial, Field.key, Field.default, Field.zero, FieldKey.initial] at filled single present
      cases occurs : key.occurrence with
      | repeated => exact absurd occurs single
      | once => simpa [occurs] using filled
      | optional =>
        rw [occurs] at filled
        exact absurd (Except.ok.inj filled).symm (present occurs)

theorem Field.receives_of_holdsOf {fields : List Field} (sound : Field.Sound fields) {f : Field}
    (member : f ∈ fields) (below : ∀ inner, f.type? = some inner → Field.Sound inner.fields)
    {tag : StartTag} {children : List Node}
    (legible : Legible (Node.element tag children).characters) {v : Value}
    (holds : f.HoldsOf tag children v) {item : Value} (inside : item ∈ f.present v) :
    f.Receives item := by
  have present : f.key.occurrence = .optional → item ≠ .absent := fun optional =>
    Field.ne_absent_of_mem_present optional inside
  have ofChild {child : StartTag × List Node}
      (named : child ∈ Node.childrenNamed f.key.xmlName children) (itemOf : f.ItemOf child item) :
      f.Receives item := by
    rw [Node.characters, legible_append] at legible
    exact Field.receives_of_itemOf itemOf present
      (legible_of_mem_elementsOf legible.2 (List.mem_of_mem_filter named))
  have itself (single : f.key.occurrence ≠ .repeated) : item = v := by
    cases occurs : f.key.occurrence with
    | repeated => exact absurd occurs single
    | once =>
      rw [Field.present_once occurs] at inside
      exact List.mem_singleton.mp inside
    | optional =>
      by_cases absent : v = .absent
      · rw [absent, Field.present_absent occurs] at inside
        cases inside
      · rw [Field.present_optional occurs absent] at inside
        exact List.mem_singleton.mp inside
  cases isAttribute : f.key.isAttribute with
  | true =>
    obtain ⟨raw, codec, found, simple, isItem⟩ := (Field.holdsOf_attribute_iff isAttribute).mp holds
    have single := sound.single f member isAttribute
    obtain rfl := itself single
    rw [Node.characters, legible_append] at legible
    refine .inl ⟨codec, simple, present, raw, legible_attributeValue legible.1 found, ?_⟩
    rwa [Field.TextOf, if_neg single]
  | false =>
    by_cases repeated : f.key.occurrence = .repeated
    · obtain ⟨items, rfl, related⟩ := (Field.holdsOf_repeated_iff isAttribute repeated).mp holds
      rw [Field.present_repeated repeated] at inside
      obtain ⟨child, named, itemOf⟩ := exists_of_forall₂_left related.flip inside
      exact ofChild named itemOf
    · obtain rfl := itself repeated
      rcases (Field.holdsOf_single_iff isAttribute repeated).mp holds with
        ⟨child, isLast, itemOf⟩ | ⟨_, filled⟩
      · exact ofChild (List.mem_of_getLast? isLast) itemOf
      · exact Field.receives_of_initial sound member below repeated filled present

theorem shaped_of_holdsOf {fields : List Field} (sound : Field.Sound fields) {tag : StartTag}
    {children : List Node} {values : List Value}
    (related : List.Forall₂ (fun f v => f.HoldsOf tag children v) fields values) :
    Shaped fields values := by
  refine forall₂_imp_mem related fun f member v holds repeated => ?_
  have element : f.key.isAttribute = false := by
    cases isAttribute : f.key.isAttribute with
    | false => rfl
    | true => exact absurd repeated (sound.single f member isAttribute)
  obtain ⟨items, rfl, _⟩ := (Field.holdsOf_repeated_iff element repeated).mp holds
  exact ⟨items, rfl⟩

/-- The items of a record that was read are such that documents may give them, and its fields can be
set. -/
theorem RecordType.items_of_reads {type : RecordType} (sound : type.Throughout Field.Sound)
    {v : Value} (reads : type.Reads v) :
    ∃ values, v = .record type.layout values ∧ Shaped type.fields values ∧
      (∀ f ∈ type.fields, f.key.settingFault? = none) ∧
      ∀ entry ∈ presentItems type.fields values, entry.1.Receives entry.2 := by
  obtain ⟨tag, children, legible, read⟩ := reads
  obtain ⟨_, settable, values, rfl, related⟩ :=
    (RecordType.fromNode_eq_ok_iff sound.fields tag children v).mp read
  refine ⟨values, rfl, shaped_of_holdsOf sound.fields related, settable, ?_⟩
  intro entry member
  have belongs := mem_presentItems member
  obtain ⟨v, holds, inside⟩ := exists_of_mem_presentItems related member
  exact Field.receives_of_holdsOf sound.fields belongs
    (fun inner nested => (sound.inner belongs nested).fields) legible holds inside

/-! ### Writing a record that was read -/

/-- Fields that can be written, and whose items are read from texts. -/
def Field.Fitting (fields : List Field) : Prop := Field.Writable fields ∧ Field.Typed fields

theorem RecordType.Throughout.sound {type : RecordType} (fitting : type.Throughout Field.Fitting) :
    type.Throughout Field.Sound := fitting.imp fun _ both => both.1.1

theorem mem_reals_of_mem_presentItems {fields : List Field} {values : List Value}
    {entry : Field × Value} (member : entry ∈ presentItems fields values) {layout : Layout}
    {x : Number.Binary64} (isReal : x ∈ entry.2.reals) : x ∈ (Value.record layout values).reals := by
  rw [Value.reals]
  induction fields generalizing values with
  | nil => cases member
  | cons f fields ih =>
    cases values with
    | nil => cases member
    | cons v values =>
      rw [Value.realsOfAll]
      rcases List.mem_append.mp member with here | below
      · obtain ⟨item, inside, rfl⟩ := List.mem_map.mp here
        refine List.mem_append_left _ ?_
        unfold Field.present at inside
        split at inside
        · rw [Value.reals]
          exact mem_realsOfAll inside isReal
        · cases inside
        · cases inside
        · rw [List.mem_singleton.mp inside] at isReal
          exact isReal
      · exact List.mem_append_right _ (ih below)

theorem formatted_of_written {fields : List Field} (typed : Field.Typed fields) {f : Field}
    (member : f ∈ fields) {codec : Codec} (simple : f.codec? = some codec) {item : Value}
    (given : f.Given codec item) {text : String} (written : codec.write item = .ok text) :
    Formatted f codec item := by
  obtain ⟨proper, _, defaults⟩ := typed f member codec simple
  exact ⟨text, written,
    Codec.legible_of_write proper (Field.yields_of_given simple defaults given) written⟩

theorem RecordType.holds_formatted {type : RecordType} (fitting : type.Throughout Field.Fitting)
    {v : Value} (reads : type.Reads v) (exact' : v.Exact) (keeps : type.Holds Field.Keeps v) :
    type.Holds Formatted v := by
  induction fitting generalizing v with
  | @mk className name fields own below ih =>
    have sound : (RecordType.mk className name fields).Throughout Field.Sound :=
      RecordType.Throughout.sound (.mk own below)
    obtain ⟨values, rfl, shaped, _, received⟩ := RecordType.items_of_reads sound reads
    obtain ⟨values', same, _, kept⟩ := keeps
    obtain rfl := (Value.record.inj same).2
    refine ⟨values, rfl, shaped, conforms_iff.mpr ?_⟩
    intro entry member
    have belongs := mem_presentItems member
    have exactItem : entry.2.Exact :=
      fun x isReal => exact' x (mem_reals_of_mem_presentItems member isReal)
    rcases (conforms_iff.mp kept entry member).received (received entry member) with
      ⟨codec, simple, given, keepsItem⟩ | ⟨inner, nested, readsItem, holds⟩
    · obtain ⟨text, written, _⟩ := keepsItem.exists_text own.2 belongs simple given exactItem
      exact .inl ⟨codec, simple, formatted_of_written own.2 belongs simple given written⟩
    · exact .inr ⟨inner, nested, ih entry.1 belongs inner nested readsItem exactItem holds⟩

/-- A record that was read and is written has texts that documents may hold. -/
theorem RecordType.holds_formatted_of_written {type : RecordType}
    (fitting : type.Throughout Field.Fitting) {v : Value} (reads : type.Reads v) {name : String}
    {depth : Int} {text : String} (written : v.writeElement name depth = .ok text) :
    type.Holds Formatted v := by
  induction fitting generalizing v name depth text with
  | @mk className typeName fields own below ih =>
    have sound : (RecordType.mk className typeName fields).Throughout Field.Sound :=
      RecordType.Throughout.sound (.mk own below)
    obtain ⟨values, rfl, shaped, _, received⟩ := RecordType.items_of_reads sound reads
    have free : (RecordType.mk className typeName fields).layout.slots.any (·.name == "write") =
        false := writes_of_sound own.1.1
    rw [Value.writeElement, free] at written
    obtain ⟨attributes, wroteAttributes, written⟩ := bind_eq_ok_iff.mp written
    obtain ⟨elements, wroteElements, _⟩ := bind_eq_ok_iff.mp written
    refine ⟨values, rfl, shaped, conforms_iff.mpr ?_⟩
    intro entry member
    have belongs := mem_presentItems member
    rcases received entry member with ⟨codec, simple, given⟩ | ⟨inner, nested, readsItem⟩
    · have hasText : ∃ text, codec.write entry.2 = .ok text := by
        cases isAttribute : entry.1.key.isAttribute with
        | true =>
          exact exists_text_of_writeAttributes shaped wroteAttributes entry member isAttribute codec
            simple
        | false =>
          obtain ⟨itemText, wroteItem⟩ :=
            exists_text_of_writeFields shaped wroteElements entry member isAttribute
          rw [Value.writeItem, Field.slot_codec, simple] at wroteItem
          simp only [Value.writeSimple, Field.slot_codec, simple, ofCodec] at wroteItem
          obtain ⟨itemText, wrote, _⟩ := bind_eq_ok_iff.mp wroteItem
          exact ⟨itemText, mapError_eq_ok_iff.mp wrote⟩
      obtain ⟨itemText, wrote⟩ := hasText
      exact .inl ⟨codec, simple, formatted_of_written own.2 belongs simple given wrote⟩
    · obtain ⟨itemText, wroteItem⟩ := exists_text_of_writeFields shaped wroteElements entry member
        (own.1.1.element_of_type belongs nested)
      rw [Value.writeItem, Field.slot_codec, Field.codec?_eq_none nested] at wroteItem
      exact .inr ⟨inner, nested, ih entry.1 belongs inner nested readsItem wroteItem⟩

/-! ### The items of an element that was written -/

/-- A child is what an item is written as: its text or, if it is a record, its own items. -/
inductive Draws.Child (f : Field) : Value → StartTag × List Node → Prop
  | text {codec : Codec} {item : Value} {content : String} {child : StartTag × List Node} :
      f.codec? = some codec → codec.write item = .ok content →
      Node.directText child.2 = String.ofList (normalizeLines false content.toList) →
      Draws.Child f item child
  | record {inner : RecordType} {values : List Value} {attributes : List (String × String)}
      {inside : Forest} {name : String} {depth outer : Int} :
      f.type? = some inner → DrawsAttributes (presentItems inner.fields values) attributes →
      Draws (presentItems inner.fields values) inside →
      Draws.Child f (.record inner.layout values)
        (plainTag name attributes, inside.normalized.nodes depth outer)

/-- The children of a written element are those of its element items. -/
theorem Draws.elementsOf {items : List (Field × Value)} {row : Forest} (drawn : Draws items row)
    (depth outer : Int) :
    List.Forall₂ (fun entry child => child.1.name = entry.1.key.xmlName ∧
        Draws.Child entry.1 entry.2 child)
      (items.filter (fun entry => !entry.1.key.isAttribute))
      (Node.elementsOf (row.normalized.nodes depth outer)) := by
  induction drawn generalizing depth outer with
  | nil => exact .nil
  | value isAttribute _ ih =>
    rw [List.filter_cons_of_neg (by simp [isAttribute])]
    exact ih depth outer
  | @text f codec item content rest row element simple written _ ih =>
    rw [List.filter_cons_of_pos (by simp [element])]
    refine .cons ⟨rfl, .text simple written ?_⟩ (ih depth outer)
    show Node.directText (if _ then _ else _) = _
    split
    · rename_i empty
      rw [empty]
      rfl
    · rw [Node.directText, Node.directText, String.append_empty]
  | @record f inner values attributes inside rest row element nested attributesDrawn insideDrawn _ _ ih =>
    rw [List.filter_cons_of_pos (by simp [element])]
    exact .cons ⟨rfl, .record nested attributesDrawn insideDrawn⟩ (ih depth outer)

/-- The items under the name of a field are those that the field holds. -/
theorem filter_presentItems_xmlName {fields : List Field} {values : List Value}
    (distinct : (fields.map (·.key.xmlName)).Nodup) {f : Field} {v : Value}
    (aligned : (f, v) ∈ fields.zip values) :
    (presentItems fields values).filter (fun entry => entry.1.key.xmlName == f.key.xmlName) =
      (f.present v).map (f, ·) := by
  have none {fields : List Field} (values : List Value)
      (absent : f.key.xmlName ∉ fields.map (·.key.xmlName)) :
      (presentItems fields values).filter (fun entry => entry.1.key.xmlName == f.key.xmlName) = [] := by
    rw [List.filter_eq_nil_iff]
    intro entry member same
    exact absent (List.mem_map.mpr ⟨entry.1, mem_presentItems member, by simpa using same⟩)
  induction fields generalizing values with
  | nil => cases aligned
  | cons g fields ih =>
    cases values with
    | nil => cases aligned
    | cons w values =>
      obtain ⟨fresh, distinct⟩ := List.nodup_cons.mp distinct
      rw [filter_presentItems_cons fun g => g.key.xmlName == f.key.xmlName]
      rcases List.mem_cons.mp aligned with same | below
      · obtain ⟨rfl, rfl⟩ := Prod.mk.inj same
        rw [if_pos (by simp), none values fresh, List.append_nil]
      · have other : ¬ g.key.xmlName = f.key.xmlName := by
          intro same
          exact fresh (List.mem_map.mpr ⟨f, (List.of_mem_zip below).1, same.symm⟩)
        rw [if_neg (by simp [other]), List.nil_append, ih distinct below]

theorem Draws.childrenNamed {fields : List Field} (sound : Field.Sound fields) {values : List Value}
    {row : Forest} (drawn : Draws (presentItems fields values) row) {f : Field} {v : Value}
    (aligned : (f, v) ∈ fields.zip values) (element : f.key.isAttribute = false)
    (depth outer : Int) :
    List.Forall₂ (Draws.Child f) (f.present v)
      (Node.childrenNamed f.key.xmlName (row.normalized.nodes depth outer)) := by
  have all := drawn.elementsOf depth outer
  have named := List.rel_filter (p := fun entry => entry.1.key.xmlName == f.key.xmlName)
    (q := fun child => child.1.name == f.key.xmlName) (fun entry child both => by simp [both.1]) all
  have own : ((presentItems fields values).filter (fun entry => !entry.1.key.isAttribute)).filter
      (fun entry => entry.1.key.xmlName == f.key.xmlName) = (f.present v).map (f, ·) := by
    rw [List.filter_comm, filter_presentItems_xmlName sound.xmlNames_nodup aligned,
      List.filter_eq_self]
    intro entry member
    obtain ⟨item, _, rfl⟩ := List.mem_map.mp member
    simp [element]
  rw [own, List.forall₂_map_left_iff] at named
  exact named.imp fun _ _ both => both.2

theorem attributeQuery_plain {name : String} (plain : IsPlainName name) :
    attributeQuery name = .ok ("", name) := by
  have nameChars := all_isNameChar_of_isName plain.isName
  have all : name.toList.all isXmlChar = true :=
    List.all_eq_true.mpr fun c member => isXmlChar_of_isNameChar (nameChars c member)
  obtain ⟨c, cs, isList, start⟩ := exists_cons_of_isName plain.isName
  have other : c ≠ '\x7b' := ne_of_isNameChar (isNameChar_of_isNameStart start) (by decide)
  rw [attributeQuery, all, isList]
  split
  · contradiction
  · split
    · contradiction
    · rename_i rest shape
      exact absurd (List.cons.inj shape).1 other
    · rw [← isList, String.ofList_toList]

theorem attributeValue_plain {name : String} (plain : IsPlainName name)
    (attributes : List (String × String)) :
    attributeValue (attributes.map fun a => ⟨"", a.1, a.2⟩) name =
      .ok (((attributes.find? (·.1 == name)).map (·.2)).getD "") := by
  have asked : (attributes.map fun a => (⟨"", a.1, a.2⟩ : Attribute)).find?
      (fun a => a.space == "" && a.name == name) =
        (attributes.find? (·.1 == name)).map fun a => ⟨"", a.1, a.2⟩ := by
    rw [List.find?_map]
    rfl
  have others : (attributes.map fun a => (⟨"", a.1, a.2⟩ : Attribute)).find?
      (fun a => a.space != "" && a.name == name) = none := by
    rw [List.find?_eq_none]
    intro a member
    obtain ⟨_, _, rfl⟩ := List.mem_map.mp member
    simp
  unfold attributeValue
  rw [attributeQuery_plain plain]
  simp only [bind, Except.bind, asked, others]
  cases attributes.find? (·.1 == name) <;> rfl

/-- The attribute under the name of an attribute field has the text of its item. -/
theorem DrawsAttributes.attributeValue_eq {fields : List Field} (writable : Field.Writable fields)
    {values : List Value} {attributes : List (String × String)}
    (drawn : DrawsAttributes (presentItems fields values) attributes) {f : Field} {v : Value}
    (aligned : (f, v) ∈ fields.zip values) (isAttribute : f.key.isAttribute = true) (name : String) :
    f.present v = [] ∧ attributeValue (plainTag name attributes).attributes f.key.xmlName = .ok "" ∨
      ∃ item codec text, f.present v = [item] ∧ f.codec? = some codec ∧
        codec.write item = .ok text ∧
        attributeValue (plainTag name attributes).attributes f.key.xmlName = .ok text := by
  have named := List.rel_filter (p := fun entry => entry.1.key.xmlName == f.key.xmlName)
    (q := fun a => a.1 == f.key.xmlName) (fun entry a both => by simp [both.1]) drawn
  have own : ((presentItems fields values).filter (fun entry => entry.1.key.isAttribute)).filter
      (fun entry => entry.1.key.xmlName == f.key.xmlName) = (f.present v).map (f, ·) := by
    rw [List.filter_comm, filter_presentItems_xmlName writable.1.xmlNames_nodup aligned,
      List.filter_eq_self]
    intro entry member
    obtain ⟨item, _, rfl⟩ := List.mem_map.mp member
    exact isAttribute
  rw [own, List.forall₂_map_left_iff] at named
  have belongs := (List.of_mem_zip aligned).1
  have found := attributeValue_plain (writable.2 f belongs) attributes
  rw [← List.head?_filter] at found
  have few := Field.length_present_le_one (writable.1.single f belongs isAttribute) v
  match present : f.present v, few with
  | [], _ =>
    rw [present, List.forall₂_nil_left_iff] at named
    rw [plainTag, found, named]
    exact .inl ⟨rfl, rfl⟩
  | [item], _ =>
    rw [present] at named
    obtain ⟨a, rest, ⟨_, codec, simple, written⟩, _, shape⟩ := List.forall₂_cons_left_iff.mp named
    rw [plainTag, found, shape]
    exact .inr ⟨item, codec, a.2, rfl, simple, written, rfl⟩

/-! ### Reading a record back -/

def Field.Returns (f : Field) (item again : Value) : Prop :=
  f.key.isAttribute = true ∧ (∃ codec text, f.codec? = some codec ∧ codec.write item = .ok text ∧
      f.TextOf codec text again) ∨
    f.key.isAttribute = false ∧ ∃ child, Draws.Child f item child ∧ f.ItemOf child again

/-- An item comes back from whatever it may be written as, as one related to it. -/
structure Field.Restores (f : Field) (R : Value → Value → Prop) (item : Value) : Prop where
  value : f.key.isAttribute = true → ∀ codec text, f.codec? = some codec →
    codec.write item = .ok text → ∃ again, f.TextOf codec text again ∧ R item again
  child : f.key.isAttribute = false → ∀ child, Draws.Child f item child →
    ∃ again, f.ItemOf child again ∧ R item again

/-- Where a field held one value it holds another, the items of which are related to those of the
first. -/
inductive Field.Regains (f : Field) (R : Value → Value → Prop) : Value → Value → Prop
  | items {items others : List Value} : f.key.occurrence = .repeated →
      List.Forall₂ R items others → Field.Regains f R (.list items) (.list others)
  | value {v w : Value} : f.key.occurrence ≠ .repeated → f.present v = [v] → R v w →
      Field.Regains f R v w
  | absent : f.key.occurrence = .optional → Field.Regains f R .absent .absent

namespace Field

theorem initial_of_optional {f : Field} (optional : f.key.occurrence = .optional) :
    f.initial = .ok .absent := by
  simp [initial, FieldKey.initial, optional]

theorem eq_of_present {f : Field} (single : f.key.occurrence ≠ .repeated) {v item : Value}
    (one : f.present v = [item]) : item = v := by
  rcases present_single single (v := v) with itself | ⟨_, _, none⟩
  · rw [one] at itself
    exact (List.cons.inj itself).1
  · rw [one] at none
    cases none

theorem Regains.eq {f : Field} {v w : Value} (regains : f.Regains (fun v w => w = v) v w) :
    w = v := by
  cases regains with
  | items _ related =>
    have same : List.Forall₂ (· = ·) _ _ := related.flip
    rw [List.forall₂_eq_eq_eq] at same
    rw [same]
  | value _ _ same => exact same
  | absent _ => rfl

theorem Regains.exists_same {f : Field} {R : Value → Value → Prop} {v w : Value}
    (regains : f.Regains R v w) (same : Value.same w v = true) {item : Value}
    (held : item ∈ f.present v) : ∃ again, R item again ∧ Value.same again item = true := by
  cases regains with
  | items repeated related =>
    rw [present_repeated repeated] at held
    have sameItems := sameItems_iff.mp (by simpa [Value.same] using same)
    exact List.forall₂_same.mp (forall₂_comp related sameItems) item held
  | value single one holds =>
    rw [one] at held
    rw [List.mem_singleton.mp held]
    exact ⟨w, holds, same⟩
  | absent optional =>
    rw [present_absent optional] at held
    cases held

theorem Returns.exists_text {f : Field} {item again : Value} (returns : f.Returns item again)
    {codec : Codec} (simple : f.codec? = some codec) :
    ∃ text, codec.write item = .ok text ∧ f.TextOf codec (f.carried text) again := by
  rcases returns with ⟨isAttribute, codec', text, simple', written, isItem⟩ |
    ⟨element, child, drawn, itemOf⟩
  · obtain rfl := Option.some.inj (simple.symm.trans simple')
    exact ⟨text, written, by rwa [carried, isAttribute]⟩
  · rw [itemOf_iff_textOf simple] at itemOf
    cases drawn with
    | @text codec' _ text _ simple' written content =>
      obtain rfl := Option.some.inj (simple.symm.trans simple')
      exact ⟨text, written, by rwa [carried, element, if_neg (by simp), ← content]⟩
    | record nested =>
      exact absurd nested (Field.not_nested_of_simple simple)

theorem Returns.exists_fromNode {f : Field} {item again : Value} (returns : f.Returns item again)
    (element : f.key.isAttribute = false) {inner : RecordType} (nested : f.type? = some inner) :
    ∃ values attributes inside name depth outer, item = .record inner.layout values ∧
      DrawsAttributes (presentItems inner.fields values) attributes ∧
      Draws (presentItems inner.fields values) inside ∧
      inner.fromNode (.element (plainTag name attributes) (inside.normalized.nodes depth outer)) =
        .ok again := by
  rcases returns with ⟨isAttribute, _⟩ | ⟨_, child, drawn, itemOf⟩
  · rw [element] at isAttribute
    cases isAttribute
  · rw [itemOf_iff_fromNode nested] at itemOf
    cases drawn with
    | text simple =>
      exact absurd nested (Field.not_nested_of_simple simple)
    | @record inner' values attributes inside name depth outer nested' attributesDrawn insideDrawn =>
      obtain rfl := Option.some.inj (nested.symm.trans nested')
      exact ⟨values, attributes, inside, name, depth, outer, rfl, attributesDrawn, insideDrawn,
        itemOf⟩

theorem Restores.of_codec {f : Field} {codec : Codec} {R : Value → Value → Prop}
    {item again : Value} {text : String} (simple : f.codec? = some codec)
    (written : codec.write item = .ok text) (isItem : f.TextOf codec (f.carried text) again)
    (related : R item again) : f.Restores R item := by
  refine ⟨fun isAttribute codec' text' simple' written' => ⟨again, ?_, related⟩,
    fun element child drawn => ⟨again, ?_, related⟩⟩
  · obtain rfl := Option.some.inj (simple.symm.trans simple')
    obtain rfl := Except.ok.inj (written.symm.trans written')
    rwa [carried, if_pos isAttribute] at isItem
  · rw [itemOf_iff_textOf simple]
    cases drawn with
    | text simple' written' content =>
      obtain rfl := Option.some.inj (simple.symm.trans simple')
      obtain rfl := Except.ok.inj (written.symm.trans written')
      rwa [carried, if_neg (by simp [element]), ← content] at isItem
    | record nested =>
      exact absurd nested (Field.not_nested_of_simple simple)

theorem Restores.of_type {f : Field} {inner : RecordType} {R : Value → Value → Prop} {item : Value}
    (element : f.key.isAttribute = false) (nested : f.type? = some inner)
    (back : ∀ {values attributes inside} (name : String) (depth outer : Int),
      item = .record inner.layout values →
      DrawsAttributes (presentItems inner.fields values) attributes →
      Draws (presentItems inner.fields values) inside →
      ∃ again, inner.fromNode
        (.element (plainTag name attributes) (inside.normalized.nodes depth outer)) = .ok again ∧
          R item again) : f.Restores R item := by
  refine ⟨fun isAttribute => ?_, fun _ child drawn => ?_⟩
  · rw [element] at isAttribute
    cases isAttribute
  · simp only [itemOf_iff_fromNode nested]
    cases drawn with
    | text simple =>
      exact absurd nested (Field.not_nested_of_simple simple)
    | record nested' attributesDrawn insideDrawn =>
      obtain rfl := Option.some.inj (nested.symm.trans nested')
      exact back _ _ _ rfl attributesDrawn insideDrawn

/-- What a field holds in a written element, given that each item of the field comes back. -/
theorem exists_holdsOf {R : Value → Value → Prop} {fields : List Field}
    (writable : Field.Writable fields) {values : List Value} (shaped : Shaped fields values)
    {attributes : List (String × String)} {inside : Forest}
    (attributesDrawn : DrawsAttributes (presentItems fields values) attributes)
    (insideDrawn : Draws (presentItems fields values) inside) (name : String) (depth outer : Int)
    {f : Field} {v : Value} (aligned : (f, v) ∈ fields.zip values)
    (restores : ∀ item ∈ f.present v, f.Restores R item) :
    ∃ w, f.HoldsOf (plainTag name attributes) (inside.normalized.nodes depth outer) w ∧
      f.Regains R v w := by
  have belongs := (List.of_mem_zip aligned).1
  cases isAttribute : f.key.isAttribute with
  | true =>
    simp only [holdsOf_attribute_iff isAttribute]
    have single := writable.1.single f belongs isAttribute
    rcases attributesDrawn.attributeValue_eq writable aligned isAttribute name with
      ⟨none, found⟩ | ⟨item, codec, text, one, simple, written, found⟩
    · obtain ⟨codec, simple⟩ := writable.1.simple f belongs isAttribute
      rcases present_single single (v := v) with one | ⟨optional, rfl, _⟩
      · rw [none] at one
        cases one
      · exact ⟨.absent, ⟨"", codec, found, simple, by rw [if_pos rfl]; exact initial_of_optional optional⟩,
          .absent optional⟩
    · obtain rfl := eq_of_present single one
      obtain ⟨again, isItem, related⟩ :=
        (restores item (by rw [one]; exact List.mem_singleton_self item)).value isAttribute codec text
          simple written
      rw [TextOf, if_neg single] at isItem
      exact ⟨again, ⟨text, codec, found, simple, isItem⟩, .value single one related⟩
  | false =>
    have back := forall₂_imp_mem
      (insideDrawn.childrenNamed writable.1 aligned isAttribute depth outer)
      fun item held child drawn => (restores item held).child isAttribute child drawn
    by_cases repeated : f.key.occurrence = .repeated
    · simp only [holdsOf_repeated_iff isAttribute repeated]
      obtain ⟨items, rfl⟩ := (List.forall₂_iff_zip.mp shaped).2 aligned repeated
      rw [present_repeated repeated] at back
      obtain ⟨others, itemsOf, related⟩ := exists_forall₂_and back
      exact ⟨.list others, ⟨others, rfl, itemsOf⟩, .items repeated related⟩
    · simp only [holdsOf_single_iff isAttribute repeated]
      rcases present_single repeated (v := v) with one | ⟨optional, rfl, none⟩
      · rw [one] at back
        obtain ⟨child, rest, ⟨again, itemOf, related⟩, tail, shape⟩ :=
          List.forall₂_cons_left_iff.mp back
        rw [List.forall₂_nil_left_iff] at tail
        rw [shape, tail]
        exact ⟨again, .inl ⟨child, rfl, itemOf⟩, .value repeated one related⟩
      · rw [none, List.forall₂_nil_left_iff] at back
        exact ⟨.absent, .inr ⟨back, initial_of_optional optional⟩, .absent optional⟩

/-- The items of a field come back as those that it holds in a written element. -/
theorem regains_of_holdsOf {fields : List Field} (writable : Field.Writable fields)
    {values : List Value} (shaped : Shaped fields values) {attributes : List (String × String)}
    {inside : Forest} (attributesDrawn : DrawsAttributes (presentItems fields values) attributes)
    (insideDrawn : Draws (presentItems fields values) inside) {name : String} {depth outer : Int}
    {f : Field} {v w : Value} (aligned : (f, v) ∈ fields.zip values)
    (holds : f.HoldsOf (plainTag name attributes) (inside.normalized.nodes depth outer) w) :
    f.Regains f.Returns v w := by
  have belongs := (List.of_mem_zip aligned).1
  have unset (optional : f.key.occurrence = .optional) (absent : v = .absent)
      (filled : f.initial = .ok w) : f.Regains f.Returns v w := by
    obtain rfl := Except.ok.inj ((initial_of_optional optional).symm.trans filled)
    rw [absent]
    exact .absent optional
  cases isAttribute : f.key.isAttribute with
  | true =>
    obtain ⟨raw, codec, found, simple, isItem⟩ := (holdsOf_attribute_iff isAttribute).mp holds
    have single := writable.1.single f belongs isAttribute
    rcases attributesDrawn.attributeValue_eq writable aligned isAttribute name with
      ⟨none, found'⟩ | ⟨item, codec', text, one, simple', written, found'⟩
    · obtain rfl := Except.ok.inj (found.symm.trans found')
      rcases present_single single (v := v) with one | ⟨optional, absent, _⟩
      · rw [none] at one
        cases one
      · exact unset optional absent (by rwa [if_pos rfl] at isItem)
    · obtain rfl := Except.ok.inj (found.symm.trans found')
      obtain rfl := Option.some.inj (simple.symm.trans simple')
      obtain rfl := eq_of_present single one
      exact .value single one
        (.inl ⟨isAttribute, codec, raw, simple, written, by rwa [TextOf, if_neg single]⟩)
  | false =>
    have children := insideDrawn.childrenNamed writable.1 aligned isAttribute depth outer
    by_cases repeated : f.key.occurrence = .repeated
    · obtain ⟨others, rfl, related⟩ := (holdsOf_repeated_iff isAttribute repeated).mp holds
      obtain ⟨items, rfl⟩ := (List.forall₂_iff_zip.mp shaped).2 aligned repeated
      rw [present_repeated repeated] at children
      refine .items repeated ((forall₂_comp children related).imp ?_)
      rintro item again ⟨child, drawn, itemOf⟩
      exact .inr ⟨isAttribute, child, drawn, itemOf⟩
    · have held := (holdsOf_single_iff isAttribute repeated).mp holds
      rcases present_single repeated (v := v) with one | ⟨optional, absent, none⟩
      · rw [one] at children
        obtain ⟨child, rest, drawn, tail, shape⟩ := List.forall₂_cons_left_iff.mp children
        rw [List.forall₂_nil_left_iff] at tail
        rw [shape, tail] at held
        rcases held with ⟨last, isLast, itemOf⟩ | ⟨noChild, _⟩
        · obtain rfl := Option.some.inj isLast
          exact .value repeated one (.inr ⟨isAttribute, child, drawn, itemOf⟩)
        · cases noChild
      · rw [none, List.forall₂_nil_left_iff] at children
        rw [children] at held
        rcases held with ⟨last, isLast, _⟩ | ⟨_, filled⟩
        · cases isLast
        · exact unset optional absent filled

end Field

namespace RecordType

variable {type : RecordType} {values others : List Value} {attributes : List (String × String)}
  {inside : Forest}

/-- A written element gives a record if each item of the first comes back. -/
theorem exists_fromNode_of_restores {R : Value → Value → Prop}
    (writable : Field.Writable type.fields)
    (settable : ∀ f ∈ type.fields, f.key.settingFault? = none) (shaped : Shaped type.fields values)
    (attributesDrawn : DrawsAttributes (presentItems type.fields values) attributes)
    (insideDrawn : Draws (presentItems type.fields values) inside)
    (restores : ∀ entry ∈ presentItems type.fields values, entry.1.Restores R entry.2)
    (name : String) (depth outer : Int) :
    ∃ others, type.fromNode
        (.element (plainTag name attributes) (inside.normalized.nodes depth outer)) =
          .ok (.record type.layout others) ∧
      List.Forall₂ (fun entry w => entry.1.Regains R entry.2 w) (type.fields.zip values) others := by
  have held : ∀ entry ∈ type.fields.zip values, ∃ w,
      entry.1.HoldsOf (plainTag name attributes) (inside.normalized.nodes depth outer) w ∧
        entry.1.Regains R entry.2 w := fun entry aligned =>
    Field.exists_holdsOf writable shaped attributesDrawn insideDrawn name depth outer aligned
      fun _ inside => restores _ (mem_presentItems_of_zip aligned inside)
  obtain ⟨others, related⟩ := exists_forall₂_iff.mpr held
  refine ⟨others, (fromNode_eq_ok_iff writable.1 _ _ _).mpr ⟨?_, settable, others, rfl, ?_⟩,
    related.imp fun _ _ both => both.2⟩
  · intro f member element child named
    obtain ⟨v, aligned⟩ := exists_mem_zip shaped.length_eq member
    obtain ⟨item, held, drawn⟩ := exists_of_forall₂_left
      (insideDrawn.childrenNamed writable.1 aligned element depth outer).flip named
    obtain ⟨again, itemOf, _⟩ :=
      (restores _ (mem_presentItems_of_zip aligned held)).child element child drawn
    exact ⟨again, itemOf⟩
  · rw [← List.map_fst_zip shaped.length_eq.le, List.forall₂_map_left_iff]
    exact related.imp fun _ _ both => both.1

theorem regains_of_fromNode (writable : Field.Writable type.fields)
    (shaped : Shaped type.fields values)
    (attributesDrawn : DrawsAttributes (presentItems type.fields values) attributes)
    (insideDrawn : Draws (presentItems type.fields values) inside) {name : String}
    {depth outer : Int} {w : Value}
    (back : type.fromNode
      (.element (plainTag name attributes) (inside.normalized.nodes depth outer)) = .ok w) :
    ∃ others, w = .record type.layout others ∧ Shaped type.fields others ∧
      List.Forall₂ (fun entry w => entry.1.Regains entry.1.Returns entry.2 w)
        (type.fields.zip values) others := by
  obtain ⟨_, _, others, rfl, held⟩ := (fromNode_eq_ok_iff writable.1 _ _ w).mp back
  have shapedAgain := shaped_of_holdsOf writable.1 held
  rw [← List.map_fst_zip shaped.length_eq.le, List.forall₂_map_left_iff] at held
  exact ⟨others, rfl, shapedAgain, forall₂_imp_mem held fun entry aligned w holds =>
    Field.regains_of_holdsOf writable shaped attributesDrawn insideDrawn aligned holds⟩

/-- A record that is kept is read back from the element that it is written as. -/
theorem fromNode_of_keeps (fitting : type.Throughout Field.Fitting)
    (reads : type.Reads (.record type.layout values))
    (exact' : (Value.record type.layout values).Exact)
    (keeps : type.Holds Field.Keeps (.record type.layout values))
    (attributesDrawn : DrawsAttributes (presentItems type.fields values) attributes)
    (insideDrawn : Draws (presentItems type.fields values) inside) (name : String)
    (depth outer : Int) :
    type.fromNode (.element (plainTag name attributes) (inside.normalized.nodes depth outer)) =
      .ok (.record type.layout values) := by
  induction fitting generalizing values attributes inside name depth outer with
  | @mk className typeName fields own below ih =>
    have sound : (RecordType.mk className typeName fields).Throughout Field.Sound :=
      RecordType.Throughout.sound (.mk own below)
    obtain ⟨values', same, shaped, settable, received⟩ := RecordType.items_of_reads sound reads
    obtain rfl := (Value.record.inj same).2
    obtain ⟨values', same, _, kept⟩ := keeps
    obtain rfl := (Value.record.inj same).2
    have exactItem {entry : Field × Value} (member : entry ∈ presentItems fields values) :
        entry.2.Exact := fun x isReal => exact' x (mem_reals_of_mem_presentItems member isReal)
    have restores : ∀ entry ∈ presentItems fields values,
        entry.1.Restores (fun v w => w = v) entry.2 := by
      rintro ⟨f, item⟩ member
      have belongs : f ∈ fields := mem_presentItems member
      rcases (conforms_iff.mp kept _ member).received (received _ member) with
        ⟨codec, simple, given, keepsItem⟩ | ⟨inner, nested, innerReads, holds⟩
      · obtain ⟨text, written, isItem⟩ := keepsItem.exists_text own.2 belongs simple given
          (exactItem member)
        exact .of_codec simple written isItem rfl
      · refine .of_type (own.1.1.element_of_type belongs nested) nested ?_
        rintro values attributes inside name depth outer rfl attributesDrawn insideDrawn
        exact ⟨_, ih f belongs inner nested innerReads (exactItem member) holds attributesDrawn
          insideDrawn name depth outer, rfl⟩
    have writable : Field.Writable (RecordType.mk className typeName fields).fields := own.1
    obtain ⟨others, back, related⟩ := exists_fromNode_of_restores writable settable shaped
      attributesDrawn insideDrawn restores name depth outer
    have same : List.Forall₂ (fun entry w => entry.2 = w) (fields.zip values) others :=
      related.imp fun _ _ regains => regains.eq.symm
    rw [← List.forall₂_map_left_iff, List.forall₂_eq_eq_eq] at same
    have whole : (fields.zip values).map Prod.snd = values :=
      List.map_snd_zip shaped.length_eq.ge
    rw [back, ← same, whole]

/-- A record that comes back the same from the element that it is written as is kept. -/
theorem keeps_of_fromNode (fitting : type.Throughout Field.Fitting)
    (reads : type.Reads (.record type.layout values))
    (attributesDrawn : DrawsAttributes (presentItems type.fields values) attributes)
    (insideDrawn : Draws (presentItems type.fields values) inside) {name : String}
    {depth outer : Int} {w : Value}
    (back : type.fromNode
      (.element (plainTag name attributes) (inside.normalized.nodes depth outer)) = .ok w)
    (same : Value.same w (.record type.layout values) = true) :
    type.Holds Field.Keeps (.record type.layout values) := by
  induction fitting generalizing values attributes inside name depth outer w with
  | @mk className typeName fields own below ih =>
    have sound : (RecordType.mk className typeName fields).Throughout Field.Sound :=
      RecordType.Throughout.sound (.mk own below)
    obtain ⟨values', sameRecord, shaped, _, received⟩ := RecordType.items_of_reads sound reads
    obtain rfl := (Value.record.inj sameRecord).2
    have writable : Field.Writable (RecordType.mk className typeName fields).fields := own.1
    obtain ⟨others, rfl, _, related⟩ :=
      regains_of_fromNode writable shaped attributesDrawn insideDrawn back
    have sameValues : List.Forall₂ (fun v w => Value.same v w = true) others values := by
      rw [← sameItems_iff]
      simpa [Value.same] using same
    have whole : (fields.zip values).map Prod.snd = values :=
      List.map_snd_zip shaped.length_eq.ge
    rw [← whole, List.forall₂_map_right_iff] at sameValues
    have round := List.forall₂_same.mp (forall₂_comp related sameValues)
    have aligned : List.Forall₂ (fun f v => (f, v) ∈ fields.zip values) fields values :=
      List.forall₂_iff_zip.mpr ⟨shaped.length_eq, fun inside => inside⟩
    refine ⟨values, rfl, shaped, conforms_iff.mpr ?_⟩
    rintro ⟨f, item⟩ member
    obtain ⟨v, here, held⟩ := exists_of_mem_presentItems aligned member
    have belongs : f ∈ fields := mem_presentItems member
    obtain ⟨w, regains, sameValue⟩ := round (f, v) here
    obtain ⟨again, found, sameItem⟩ := regains.exists_same sameValue held
    rcases received (f, item) member with ⟨codec, simple, given⟩ | ⟨inner, nested, innerReads⟩
    · refine .inl ⟨codec, simple, ?_⟩
      obtain ⟨text, written, isItem⟩ := found.exists_text simple
      exact Field.keeps_of_textOf own.2 belongs (own.1.1.single f belongs) simple given written
        isItem sameItem
    · refine .inr ⟨inner, nested, ?_⟩
      obtain ⟨values, attributes, inside, name, depth, outer, rfl, attributesDrawn, insideDrawn,
        back⟩ := found.exists_fromNode (own.1.1.element_of_type belongs nested) nested
      exact ih f belongs inner nested innerReads attributesDrawn insideDrawn back sameItem

end RecordType

end XmlRecords
