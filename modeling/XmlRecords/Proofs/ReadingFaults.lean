import XmlRecords.Proofs.Reading

/-!
When an element gives no record, and with what fault: a text in it does not parse, or a class that is
needed has no records.
-/

set_option autoImplicit false
set_option relaxedAutoImplicit false

namespace XmlRecords

open Xml

namespace RecordType

/-- Reading an element takes a text to a codec: that of an attribute, or that of a child of a declared
name, at whatever depth records lead to it. -/
inductive Consults : RecordType → StartTag → List Node → Codec → String → Prop
  | value {type : RecordType} {tag : StartTag} {children : List Node} {f : Field}
      {codec : Codec} {raw : String} :
      f ∈ type.fields → f.key.isAttribute = true → f.codec? = some codec →
      attributeValue tag.attributes f.key.xmlName = .ok raw → raw ≠ "" →
      Consults type tag children codec raw
  | text {type : RecordType} {tag : StartTag} {children : List Node} {f : Field} {codec : Codec}
      {child : StartTag × List Node} :
      f ∈ type.fields → f.key.isAttribute = false → f.codec? = some codec →
      child ∈ Node.childrenNamed f.key.xmlName children → Node.directText child.2 ≠ "" →
      Consults type tag children codec (Node.directText child.2)
  | nested {type inner : RecordType} {tag : StartTag} {children : List Node} {f : Field}
      {child : StartTag × List Node} {codec : Codec} {raw : String} :
      f ∈ type.fields → f.key.isAttribute = false → f.type? = some inner →
      child ∈ Node.childrenNamed f.key.xmlName children → Consults inner child.1 child.2 codec raw →
      Consults type tag children codec raw

/-- Some text in an element does not parse: that of an attribute, or that of a child of a declared
name, at whatever depth records lead to it. -/
inductive Unparsable : RecordType → StartTag → List Node → Prop
  | value {type : RecordType} {tag : StartTag} {children : List Node} {f : Field}
      {codec : Codec} {raw : String} :
      f ∈ type.fields → f.key.isAttribute = true → f.codec? = some codec →
      attributeValue tag.attributes f.key.xmlName = .ok raw → raw ≠ "" → Fails (codec.read raw) →
      Unparsable type tag children
  | text {type : RecordType} {tag : StartTag} {children : List Node} {f : Field} {codec : Codec}
      {child : StartTag × List Node} :
      f ∈ type.fields → f.key.isAttribute = false → f.codec? = some codec →
      child ∈ Node.childrenNamed f.key.xmlName children → Node.directText child.2 ≠ "" →
      Fails (codec.read (Node.directText child.2)) →
      Unparsable type tag children
  | nested {type inner : RecordType} {tag : StartTag} {children : List Node} {f : Field}
      {child : StartTag × List Node} :
      f ∈ type.fields → f.key.isAttribute = false → f.type? = some inner →
      child ∈ Node.childrenNamed f.key.xmlName children → Unparsable inner child.1 child.2 →
      Unparsable type tag children

/-- Reading needs a record of a class that has none: one declares an attribute under a name that
cannot be looked up, or a field under a name that cannot be set. -/
inductive Blocked : RecordType → StartTag → List Node → Prop
  | lookup {type : RecordType} {tag : StartTag} {children : List Node} {f : Field} :
      f ∈ type.fields → f.key.isAttribute = true → Fails (attributeQuery f.key.xmlName) →
      Blocked type tag children
  | setting {type : RecordType} {tag : StartTag} {children : List Node} {f : Field} {fault : Fault} :
      f ∈ type.fields → f.key.settingFault? = some fault → Blocked type tag children
  | nested {type inner : RecordType} {tag : StartTag} {children : List Node} {f : Field}
      {child : StartTag × List Node} :
      f ∈ type.fields → f.key.isAttribute = false → f.type? = some inner →
      child ∈ Node.childrenNamed f.key.xmlName children → Blocked inner child.1 child.2 →
      Blocked type tag children
  | missing {type inner : RecordType} {tag : StartTag} {children : List Node} {f : Field} :
      f ∈ type.fields → f.key.isAttribute = false → f.type? = some inner →
      f.key.occurrence = .once → Node.childrenNamed f.key.xmlName children = [] →
      Blocked inner .bare [] → Blocked type tag children

end RecordType

theorem fails_attributeValue_iff (attributes : List Attribute) (name : String) :
    Fails (attributeValue attributes name) ↔ Fails (attributeQuery name) := by
  unfold attributeValue
  cases attributeQuery name with
  | error fault => simp [Fails, bind, Except.bind]
  | ok query =>
    simp only [bind, Except.bind]
    constructor
    · rintro ⟨fault, h⟩
      split at h
      · cases h
      · split at h <;> cases h
    · rintro ⟨fault, h⟩
      cases h

namespace Field

variable {f : Field} {codec : Codec} {inner : RecordType}

theorem exists_initial_of_codec (simple : f.codec? = some codec) : ∃ v, f.initial = .ok v := by
  cases f with
  | nested key inner default => cases simple
  | simple key codec' default =>
    simp only [initial, Field.key, Field.default, zero, FieldKey.initial]
    cases key.occurrence with
    | once => cases default <;> exact ⟨_, rfl⟩
    | optional => exact ⟨_, rfl⟩
    | repeated => exact ⟨_, rfl⟩

theorem exists_initial_of_type (nested : f.type? = some inner) (plain : f.default = .absent)
    (sound : Sound inner.fields) :
    (∃ v, f.initial = .ok v) ↔
      (f.key.occurrence = .once → ¬ Fails (inner.fromNode (.element .bare []))) := by
  cases f with
  | simple key codec default => cases nested
  | nested key inner' default =>
    obtain rfl := Option.some.inj nested
    simp only [Field.default] at plain
    subst plain
    simp only [initial, Field.key, Field.default, zero, FieldKey.initial, not_fails_iff]
    cases key.occurrence with
    | once => simp only [RecordType.empty_eq_ok_iff sound, true_implies]
    | optional => simp
    | repeated => simp

theorem exists_itemOf_of_codec (simple : f.codec? = some codec) (child : StartTag × List Node) :
    (∃ v, f.ItemOf child v) ↔
      (Node.directText child.2 ≠ "" → ¬ Fails (codec.read (Node.directText child.2))) := by
  cases shape : f with
  | nested key inner default =>
    rw [shape] at simple
    cases simple
  | simple key codec' default =>
    obtain ⟨v, initial⟩ := exists_initial_of_codec simple
    rw [shape] at simple initial
    obtain rfl := Option.some.inj simple
    simp only [ItemOf, not_fails_iff]
    by_cases empty : Node.directText child.2 = ""
    · by_cases repeated : key.occurrence = .repeated
      · simp [empty, repeated]
      · simpa [empty, repeated] using ⟨v, initial⟩
    · simp [empty]

theorem exists_itemOf_of_type (nested : f.type? = some inner) (child : StartTag × List Node) :
    (∃ v, f.ItemOf child v) ↔ ¬ Fails (inner.fromNode (.element child.1 child.2)) := by
  cases f with
  | simple key codec default => cases nested
  | nested key inner' default =>
    obtain rfl := Option.some.inj nested
    rw [not_fails_iff]
    rfl

theorem exists_holdsOf_attribute (isAttribute : f.key.isAttribute = true)
    (simple : f.codec? = some codec) (tag : StartTag) (children : List Node) :
    (∃ v, f.HoldsOf tag children v) ↔
      ∃ raw, attributeValue tag.attributes f.key.xmlName = .ok raw ∧
        (raw ≠ "" → ¬ Fails (codec.read raw)) := by
  obtain ⟨initial, hasInitial⟩ := exists_initial_of_codec simple
  simp only [HoldsOf, isAttribute, if_true, simple, Option.some.injEq, not_fails_iff]
  constructor
  · rintro ⟨v, raw, _, found, rfl, holds⟩
    refine ⟨raw, found, fun nonempty => ⟨v, ?_⟩⟩
    simpa [nonempty] using holds
  · rintro ⟨raw, found, parses⟩
    by_cases empty : raw = ""
    · exact ⟨initial, raw, codec, found, rfl, by simpa [empty] using hasInitial⟩
    · obtain ⟨v, read⟩ := parses empty
      exact ⟨v, raw, codec, found, rfl, by simpa [empty] using read⟩

theorem exists_holdsOf_element (element : f.key.isAttribute = false) {tag : StartTag}
    {children : List Node}
    (items : ∀ child ∈ Node.childrenNamed f.key.xmlName children, ∃ v, f.ItemOf child v) :
    (∃ v, f.HoldsOf tag children v) ↔
      (Node.childrenNamed f.key.xmlName children = [] → ∃ v, f.initial = .ok v) := by
  by_cases repeated : f.key.occurrence = .repeated
  · obtain ⟨values, related⟩ := exists_forall₂_iff.mpr items
    constructor
    · intro _ _
      exact ⟨.list [], by simp [initial, FieldKey.initial, repeated]⟩
    · intro _
      exact ⟨_, (holdsOf_repeated_iff element repeated).mpr ⟨values, rfl, related⟩⟩
  · simp only [holdsOf_single_iff element repeated]
    constructor
    · rintro ⟨v, ⟨child, isLast, _⟩ | ⟨_, initial⟩⟩ noChild
      · rw [noChild] at isLast
        cases isLast
      · exact ⟨v, initial⟩
    · intro filled
      cases isLast : (Node.childrenNamed f.key.xmlName children).getLast? with
      | none =>
        have noChild := List.getLast?_eq_none_iff.mp isLast
        obtain ⟨v, initial⟩ := filled noChild
        exact ⟨v, .inr ⟨noChild, initial⟩⟩
      | some child =>
        obtain ⟨v, itemOf⟩ := items child (List.mem_of_getLast? isLast)
        exact ⟨v, .inl ⟨child, rfl, itemOf⟩⟩

/-- The fault of an attribute: its name cannot be looked up, or its text does not parse. -/
theorem Sound.fault_of_attributeValues {fields : List Field} (sound : Sound fields)
    {attributes : List Attribute} {fault : Fault}
    (failed : attributeValues fields attributes = .error fault) :
    ∃ f ∈ fields, f.key.isAttribute = true ∧ (Fails (attributeQuery f.key.xmlName) ∨
      ∃ codec raw cause, f.codec? = some codec ∧ attributeValue attributes f.key.xmlName = .ok raw ∧
        raw ≠ "" ∧ codec.read raw = .error cause ∧ fault = .codec cause) := by
  obtain ⟨f, listed, failed⟩ := exists_of_mapM_eq_error failed
  obtain ⟨member, isAttribute⟩ := List.mem_filter.mp listed
  obtain ⟨codec, simple⟩ := sound.simple f member isAttribute
  refine ⟨f, member, isAttribute, ?_⟩
  rcases bind_eq_error_iff.mp failed with failed | ⟨v, _, absurdity⟩
  · rw [fromAttribute] at failed
    rcases bind_eq_error_iff.mp failed with unasked | ⟨raw, found, failed⟩
    · exact .inl ((fails_attributeValue_iff attributes f.key.xmlName).mp ⟨fault, unasked⟩)
    · split at failed
      · obtain ⟨v, initial⟩ := exists_initial_of_codec simple
        rw [initial] at failed
        cases failed
      · rename_i given
        rw [simple] at failed
        simp only [ofCodec] at failed
        cases read : codec.read raw with
        | ok v =>
          rw [read] at failed
          cases failed
        | error cause =>
          rw [read] at failed
          exact .inr ⟨codec, raw, cause, simple, found, given, read, (Except.error.inj failed).symm⟩
  · cases absurdity

theorem Sound.fault_of_itemsOf {fields : List Field} (sound : Sound fields) {nodes : List Node}
    {fault : Fault} (failed : itemsOf fields nodes = .error fault) :
    ∃ f ∈ fields, f.key.isAttribute = false ∧ ∃ child ∈ Node.childrenNamed f.key.xmlName nodes,
      f.readChild child = .error fault := by
  rw [itemsOf_eq_mapM] at failed
  obtain ⟨⟨f, child⟩, declared, failed⟩ := exists_of_mapM_eq_error failed
  obtain ⟨child', present, found⟩ := List.mem_filterMap.mp declared
  obtain ⟨g, isField, pair⟩ := Option.map_eq_some_iff.mp found
  obtain ⟨rfl, rfl⟩ := Prod.mk.inj pair
  obtain ⟨member, element, named⟩ := (sound.forElement?_eq_some_iff _).mp isField
  exact ⟨g, member, element, child', List.mem_filter.mpr ⟨present, beq_iff_eq.mpr named.symm⟩,
    map_eq_error_iff.mp failed⟩

/-- A child of simple type fails as its text does, which is not empty. -/
theorem fault_of_readChild {f : Field} {codec : Codec} (simple : f.codec? = some codec)
    {child : StartTag × List Node} {fault : Fault} (failed : f.readChild child = .error fault) :
    Node.directText child.2 ≠ "" ∧
      ∃ cause, codec.read (Node.directText child.2) = .error cause ∧ fault = .codec cause := by
  cases shape : f with
  | nested key inner default =>
    rw [shape] at simple
    cases simple
  | simple key codec' default =>
    obtain ⟨v, initial⟩ := exists_initial_of_codec simple
    rw [shape] at simple initial failed
    obtain rfl := Option.some.inj simple
    rw [readChild, fromText] at failed
    split at failed
    · split at failed
      · cases failed
      · cases initial.symm.trans failed
    · rename_i given
      refine ⟨given, ?_⟩
      rw [ofCodec] at failed
      cases read : codec'.read (Node.directText child.2) with
      | ok v =>
        rw [read] at failed
        cases failed
      | error cause =>
        rw [read] at failed
        exact ⟨cause, rfl, (Except.error.inj failed).symm⟩

end Field

namespace RecordType

variable {type : RecordType} {tag : StartTag} {children : List Node}

/-- An element gives a record exactly if each declared child gives an item, each field can be set and
each field finds what it holds. -/
theorem exists_fromNode_iff (sound : Field.Sound type.fields) :
    (∃ v, type.fromNode (.element tag children) = .ok v) ↔
      (∀ f ∈ type.fields, f.key.isAttribute = false →
        ∀ child ∈ Node.childrenNamed f.key.xmlName children, ∃ w, f.ItemOf child w) ∧
      (∀ f ∈ type.fields, f.key.settingFault? = none) ∧
      ∀ f ∈ type.fields, ∃ w, f.HoldsOf tag children w := by
  simp only [fromNode_eq_ok_iff sound]
  constructor
  · rintro ⟨_, readable, settable, values, _, related⟩
    exact ⟨readable, settable, exists_forall₂_iff.mp ⟨values, related⟩⟩
  · rintro ⟨readable, settable, held⟩
    obtain ⟨values, related⟩ := exists_forall₂_iff.mpr held
    exact ⟨_, readable, settable, values, rfl, related⟩

theorem Unparsable.fails (bad : type.Unparsable tag children)
    (sound : type.Throughout Field.Sound) : Fails (type.fromNode (.element tag children)) := by
  induction bad with
  | value member isAttribute simple found nonempty fails =>
    rw [fails_iff, exists_fromNode_iff sound.fields]
    rintro ⟨_, _, held⟩
    obtain ⟨raw, found', parses⟩ :=
      (Field.exists_holdsOf_attribute isAttribute simple _ _).mp (held _ member)
    obtain rfl := Except.ok.inj (found.symm.trans found')
    exact parses nonempty fails
  | text member element simple present nonempty fails =>
    rw [fails_iff, exists_fromNode_iff sound.fields]
    rintro ⟨readable, _, _⟩
    have item := readable _ member element _ present
    exact (Field.exists_itemOf_of_codec simple _).mp item nonempty fails
  | nested member element nested present _ ih =>
    rw [fails_iff, exists_fromNode_iff sound.fields]
    rintro ⟨readable, _, _⟩
    have item := readable _ member element _ present
    exact (Field.exists_itemOf_of_type nested _).mp item (ih (sound.inner member nested))

theorem Blocked.fails (blocked : type.Blocked tag children) (sound : type.Throughout Field.Sound) :
    Fails (type.fromNode (.element tag children)) := by
  induction blocked with
  | @lookup _ tag _ _ member isAttribute fails =>
    rw [fails_iff, exists_fromNode_iff sound.fields]
    rintro ⟨_, _, held⟩
    obtain ⟨codec, simple⟩ := sound.fields.simple _ member isAttribute
    obtain ⟨raw, found, _⟩ :=
      (Field.exists_holdsOf_attribute isAttribute simple _ _).mp (held _ member)
    rw [← fails_attributeValue_iff tag.attributes, found] at fails
    exact not_fails_ok raw fails
  | setting member found =>
    rw [fails_iff, exists_fromNode_iff sound.fields]
    rintro ⟨_, settable, _⟩
    rw [settable _ member] at found
    cases found
  | nested member element nested present _ ih =>
    rw [fails_iff, exists_fromNode_iff sound.fields]
    rintro ⟨readable, _, _⟩
    have item := readable _ member element _ present
    exact (Field.exists_itemOf_of_type nested _).mp item (ih (sound.inner member nested))
  | missing member element nested once noChild _ ih =>
    rw [fails_iff, exists_fromNode_iff sound.fields]
    rintro ⟨readable, _, held⟩
    have inner := sound.inner member nested
    have initial := (Field.exists_holdsOf_element element (readable _ member element)).mp
      (held _ member) noChild
    exact (Field.exists_initial_of_type nested (sound.fields.plain _ member element)
      inner.fields).mp initial once (ih inner)

theorem not_consults_bare (type : RecordType) (codec : Codec) (raw : String) :
    ¬ type.Consults .bare [] codec raw := by
  intro consults
  cases consults with
  | value _ _ _ found nonempty =>
    rw [StartTag.bare, attributeValue_nil, map_eq_ok_iff] at found
    obtain ⟨_, _, empty⟩ := found
    exact nonempty empty.symm
  | text _ _ _ present _ => cases present
  | nested _ _ _ present _ => cases present

/-- A text does not parse exactly if it is consulted and its codec refuses it. -/
theorem unparsable_iff : type.Unparsable tag children ↔
    ∃ codec raw, type.Consults tag children codec raw ∧ Fails (codec.read raw) := by
  constructor
  · intro bad
    induction bad with
    | value member isAttribute simple found nonempty fails =>
      exact ⟨_, _, .value member isAttribute simple found nonempty, fails⟩
    | text member element simple present nonempty fails =>
      exact ⟨_, _, .text member element simple present nonempty, fails⟩
    | nested member element nested present _ ih =>
      obtain ⟨codec, raw, consults, fails⟩ := ih
      exact ⟨codec, raw, .nested member element nested present consults, fails⟩
  · rintro ⟨codec, raw, consults, fails⟩
    induction consults with
    | value member isAttribute simple found nonempty =>
      exact .value member isAttribute simple found nonempty fails
    | text member element simple present nonempty =>
      exact .text member element simple present nonempty fails
    | nested member element nested present _ ih =>
      exact .nested member element nested present (ih fails)

theorem not_unparsable_bare (type : RecordType) : ¬ type.Unparsable .bare [] := by
  rw [unparsable_iff]
  rintro ⟨codec, raw, consults, _⟩
  exact type.not_consults_bare codec raw consults

/-- What was read makes up a record, unless a field cannot be set or a missing record be made. -/
theorem blocked_of_assemble (sound : type.Throughout Field.Sound)
    {attributes items : List (String × Value)}
    (attributesRead : attributeValues type.fields tag.attributes = .ok attributes)
    (itemsRead : itemsOf type.fields children = .ok items)
    (inside : ∀ f ∈ type.fields, ∀ inner, f.type? = some inner →
      Fails (inner.fromNode (.element .bare [])) → inner.Blocked .bare [])
    (failed : Fails (type.assemble attributes items)) : type.Blocked tag children := by
  by_contra free
  have settable : ∀ f ∈ type.fields, f.key.settingFault? = none := by
    intro f member
    rw [Option.eq_none_iff_forall_ne_some]
    exact fun fault found => free (.setting member found)
  have held : ∀ f ∈ type.fields, ∃ w, f.HoldsOf tag children w := by
    intro f member
    cases isAttribute : f.key.isAttribute with
    | true =>
      exact (sound.fields.exists_attributeValues_eq_ok_iff tag children).mp ⟨_, attributesRead⟩ f
        member isAttribute
    | false =>
      rw [Field.exists_holdsOf_element isAttribute
        (sound.fields.exists_itemsOf_eq_ok_iff.mp ⟨_, itemsRead⟩ f member isAttribute)]
      intro noChild
      obtain ⟨codec, simple⟩ | ⟨inner, nested⟩ := f.codec_or_type
      · exact Field.exists_initial_of_codec simple
      · rw [Field.exists_initial_of_type nested (sound.fields.plain f member isAttribute)
          (sound.inner member nested).fields]
        intro once fails
        exact free (.missing member isAttribute nested once noChild
          (inside f member inner nested fails))
  obtain ⟨values, related⟩ := exists_forall₂_iff.mpr held
  refine (fails_iff _).mp failed ⟨_, (assemble_eq_ok_iff sound.fields attributesRead itemsRead _).mpr
    ⟨settable, values, rfl, related⟩⟩

/-- An element fails as a text that is consulted does, unless a class that is needed has no
records. -/
theorem fault_of_fromNode (sound : type.Throughout Field.Sound) {fault : Fault}
    (failed : type.fromNode (.element tag children) = .error fault) :
    type.Blocked tag children ∨ ∃ codec raw cause, type.Consults tag children codec raw ∧
      codec.read raw = .error cause ∧ fault = .codec cause := by
  -- the types of matched children lie inside the type, and so does that of a missing record
  induction sound generalizing tag children fault with
  | @mk className name fields own below ih =>
    have sound : (RecordType.mk className name fields).Throughout Field.Sound := .mk own below
    rw [fromNode] at failed
    rcases bind_eq_error_iff.mp failed with failed | ⟨attributes, attributesRead, failed⟩
    · obtain ⟨f, member, isAttribute, unasked | ⟨codec, raw, cause, simple, found, given, read, same⟩⟩ :=
        own.fault_of_attributeValues failed
      · exact .inl (.lookup member isAttribute unasked)
      · exact .inr ⟨codec, raw, cause, .value member isAttribute simple found given, read, same⟩
    rcases bind_eq_error_iff.mp failed with failed | ⟨items, itemsRead, failed⟩
    · obtain ⟨f, member, element, child, present, failed⟩ := own.fault_of_itemsOf failed
      obtain ⟨codec, simple⟩ | ⟨inner, nested⟩ := f.codec_or_type
      · obtain ⟨given, cause, read, same⟩ := Field.fault_of_readChild simple failed
        exact .inr ⟨codec, _, cause, .text member element simple present given, read, same⟩
      · have failed : inner.fromNode (.element child.1 child.2) = .error fault := by
          cases f with
          | simple key codec default => cases nested
          | nested key inner' default =>
            obtain rfl := Option.some.inj nested
            exact failed
        rcases ih f member inner nested failed with blocked | ⟨codec, raw, cause, consults, rest⟩
        · exact .inl (.nested member element nested present blocked)
        · exact .inr ⟨codec, raw, cause, .nested member element nested present consults, rest⟩
    · refine .inl (blocked_of_assemble sound attributesRead itemsRead ?_ ⟨fault, failed⟩)
      rintro f member inner nested ⟨cause, fails⟩
      rcases ih f member inner nested fails with blocked | ⟨codec, raw, _, consults, _⟩
      · exact blocked
      · exact absurd consults (inner.not_consults_bare codec raw)

/-- Reading an element fails if some text in it does not parse, or if a class that is needed has no
records, and only then. -/
theorem fails_fromNode_iff (sound : type.Throughout Field.Sound) (tag : StartTag)
    (children : List Node) :
    Fails (type.fromNode (.element tag children)) ↔
      type.Unparsable tag children ∨ type.Blocked tag children := by
  constructor
  · rintro ⟨fault, failed⟩
    rcases fault_of_fromNode sound failed with blocked | ⟨codec, raw, cause, consults, read, _⟩
    · exact .inr blocked
    · exact .inl (unparsable_iff.mpr ⟨codec, raw, consults, cause, read⟩)
  · rintro (bad | blocked)
    · exact bad.fails sound
    · exact blocked.fails sound

end RecordType

end XmlRecords
