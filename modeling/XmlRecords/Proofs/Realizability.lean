import XmlRecords.Proofs.Faithfulness
import XmlRecords.Proofs.Naming

/-!
Which of the schemas that pass their checks can be bound. The checks look neither at the names that
classes cannot have nor at types that are referred to without being declared.
-/

set_option autoImplicit false
set_option relaxedAutoImplicit false

namespace XmlRecords

open Schema

/-! ### What classes can be made -/

/-- An enumeration has no text `mro`, and its class name no NUL. -/
structure Schema.Enumerated.Realizable (e : Enumerated) : Prop where
  tags : "mro" ∉ e.values
  className : '\x00' ∉ e.className.toList

/-- The keys of fields go together in one class: their names are distinct, none of them is the name
of a fixed member, no field that has to be given comes after one that need not be, because its name is
that of a member, and a constructor can have parameters of their names. -/
structure Buildable (className : String) (keys : List FieldKey) : Prop where
  className : '\x00' ∉ className.toList
  distinct : (keys.map (·.name)).Nodup
  free : ∀ key ∈ keys, key.name ∉ fixedMembers
  required : keys.Pairwise fun a b => hidesMember keys a.name = true → hidesMember keys b.name = true
  assignable : "__debug__" ∉ keys.map (·.name)
  self : "self" ∈ keys.map (·.name) → "__dataclass_self__" ∉ keys.map (·.name)

def Schema.Attribute.key (a : Schema.Attribute) : FieldKey :=
  ⟨fieldOf a.name, a.name.shown, true, a.occurrence⟩

def Schema.Element.key (e : Schema.Element) : FieldKey :=
  ⟨fieldOf e.name, e.name.shown, false, e.occurrence⟩

def Schema.ComplexType.keys (t : ComplexType) : List FieldKey :=
  t.attributes.map Attribute.key ++ t.elements.map Element.key

/-- The codec of a type, with all enumerations of the schema bound. -/
def Schema.codec (s : Schema) (type : DeclaredType) : Except Fault Codec :=
  codecOf (fun name => (s.enumeratedNamed? name).map Enumerated.bound) type s.typeName

/-- A complex type has texts as names, attributes of simple types with defaults that fit, elements of
simple types or of complex types that are known, and fields that go together in one class. -/
structure Schema.ComplexType.Realizable (s : Schema) (t : ComplexType) : Prop where
  name : ∃ name, t.qualifiedName = .text name
  fields : ∀ label ∈ t.fieldNames, ∃ name, label = .text name
  attributes : ∀ a ∈ t.attributes, ∃ codec, s.codec a.type = .ok codec ∧
    ∀ text, a.default = some text → ∃ v, codec.read text = .ok v
  elements : ∀ e ∈ t.elements, (∃ id u, e.type = .complex id ∧ s.type? id = some u) ∨
    ∃ codec, s.codec e.type = .ok codec
  buildable : Buildable t.className t.keys

/-- All enumerations of a schema, and all complex types that its declared types lead to, can be
bound. -/
structure Schema.Realizable (s : Schema) : Prop where
  enumerations : ∀ e ∈ s.enumerations, e.Realizable
  types : ∀ id t, s.Reached id → s.type? id = some t → t.Realizable s

variable {s : Schema} {enumerations : List (Label × Enumeration)}
  {records : List (Label × RecordType)}

theorem requiredFirst_iff {keys rest : List FieldKey} :
    requiredFirst keys rest = true ↔
      rest.Pairwise fun a b => hidesMember keys a.name = true → hidesMember keys b.name = true := by
  induction rest with
  | nil => simp [requiredFirst]
  | cons key rest ih =>
    rw [requiredFirst, List.pairwise_cons]
    split
    · rename_i hidden
      rw [List.all_eq_true]
      constructor
      · intro all
        exact ⟨fun b member _ => all b member,
          List.pairwise_of_forall_mem_list fun _ _ b member _ => all b member⟩
      · rintro ⟨all, _⟩ b member
        exact all b member hidden
    · rename_i shown
      rw [ih]
      simp [shown]

theorem areParameters_iff {names : List String} : areParameters names = true ↔
    "__debug__" ∉ names ∧ ("self" ∈ names → "__dataclass_self__" ∉ names) := by
  simp [areParameters, ← imp_iff_not_or]

theorem exists_build_iff {className name : String} {fields : List Field}
    (words : ∀ key ∈ fields.map Field.key, isFieldName key.name = true) :
    (∃ type, RecordType.build className name fields = .ok type) ↔
      Buildable className (fields.map Field.key) := by
  unfold RecordType.build
  simp only
  generalize fields.map Field.key = keys at words ⊢
  have named : (keys.map (·.name)).all isFieldName = true := by
    rw [List.all_eq_true, List.forall_mem_map]
    exact words
  have held : (keys.map (·.name)).any fixedMembers.contains = true ↔
      ¬ ∀ key ∈ keys, key.name ∉ fixedMembers := by
    simp
  rw [named]
  constructor
  · rintro ⟨type, built⟩
    split at built
    · cases built
    rename_i distinct
    split at built
    · cases built
    rename_i free
    split at built
    · cases built
    rename_i required
    split at built
    · cases built
    rename_i parameters
    simp only [Bool.or_eq_true, not_or, held, List.contains_iff_mem, not_not] at free
    obtain ⟨assignable, self⟩ := areParameters_iff.mp (by simpa using parameters)
    exact ⟨free.1, by simpa using distinct, free.2, requiredFirst_iff.mp (by simpa using required),
      assignable, self⟩
  · rintro ⟨nameable, distinct, free, required, assignable, self⟩
    rw [if_neg (by simpa using distinct), if_neg, if_neg, if_neg]
    · exact ⟨_, rfl⟩
    · rw [areParameters_iff.mpr ⟨assignable, self⟩]
      simp
    · rw [requiredFirst_iff.mpr required]
      simp
    · simp only [Bool.or_eq_true, not_or, held, List.contains_iff_mem, not_not]
      exact ⟨nameable, free⟩

/-! ### Enumerations -/

theorem isPrivate_mro (className : String) : Enumeration.isPrivate className "mro" = false := by
  rw [Enumeration.isPrivate]
  rfl

theorem mem_tags_mro_iff {values : List String} :
    "mro" ∈ values.map Identifier.tag ↔ "mro" ∈ values := by
  rw [List.mem_map]
  constructor
  · rintro ⟨value, member, same⟩
    rwa [← Identifier.eq_of_tag_eq (by decide) same]
  · intro member
    exact ⟨"mro", member, by rfl⟩

theorem fault?_eq_none_iff {e : Enumerated}
    (tags : (e.values.map Identifier.tag).Nodup ∧ "UNKNOWN" ∉ e.values.map Identifier.tag) :
    Enumeration.fault? e.className (e.values.map Identifier.tag) = none ↔ e.Realizable := by
  unfold Enumeration.fault?
  simp only
  have distinct : ("UNKNOWN" ::
      (e.values.map Identifier.tag).filter (!Enumeration.isPrivate e.className ·)).Nodup := by
    refine List.nodup_cons.mpr ⟨fun member => tags.2 (List.mem_of_mem_filter member), ?_⟩
    exact tags.1.filter _
  have reserved : ("UNKNOWN" ::
      (e.values.map Identifier.tag).filter (!Enumeration.isPrivate e.className ·)).contains "mro" =
        true ↔ "mro" ∈ e.values := by
    rw [List.contains_iff_mem, List.mem_cons, List.mem_filter, isPrivate_mro, mem_tags_mro_iff]
    simp
  rw [if_neg (not_not.mpr distinct)]
  constructor
  · intro none
    split at none
    · cases none
    rename_i free
    split at none
    · cases none
    rename_i nameable
    exact ⟨fun member => free (reserved.mpr member), by simpa using nameable⟩
  · rintro ⟨free, nameable⟩
    rw [if_neg fun contains => free (reserved.mp contains), if_neg (by simpa using nameable)]

theorem exists_bindEnumeration_iff {e : Enumerated} (named : ∃ name, e.name = .text name)
    (tags : (e.values.map Identifier.tag).Nodup ∧ "UNKNOWN" ∉ e.values.map Identifier.tag) :
    (∃ entry, BoundSchema.bindEnumeration e = .ok entry) ↔ e.Realizable := by
  obtain ⟨name, isName⟩ := named
  have isClass : Identifier.recordClass name = e.className := by
    rw [Enumerated.className, isName, Json.shown]
  have isTags : (Enumeration.entriesOf e.values).map (·.1) = e.values.map Identifier.tag := by
    rw [Enumeration.entriesOf, List.map_map]
    rfl
  rw [← fault?_eq_none_iff tags]
  unfold BoundSchema.bindEnumeration Enumeration.ofValues
  simp only [isName, textOf, bind, Except.bind, isClass, isTags]
  cases Enumeration.fault? e.className (e.values.map Identifier.tag) with
  | none => simp [pure, Except.pure]
  | some fault => simp [throw, throwThe, MonadExceptOf.throw]

/-! ### Fields -/

namespace BoundSchema

theorem codecOf_eq (bound : s.enumerations.mapM bindEnumeration = .ok enumerations)
    (type : DeclaredType) :
    codecOf (enumerationNamed? enumerations) type s.typeName = s.codec type := by
  rw [Schema.codec, ← funext (enumerationNamed?_eq bound)]

theorem key_of_attributeField {a : Schema.Attribute} {f : Field}
    (bound : attributeField s enumerations a = .ok f) : f.key = a.key := by
  obtain ⟨isName, _, _⟩ := attributeField_eq_ok_iff.mp bound
  rw [Field.key, Attribute.key, fieldOf, isName, Json.shown]

theorem key_of_elementField {owner : Label} {e : Schema.Element} {f : Field}
    (bound : elementField s enumerations records owner e = .ok f) : f.key = e.key := by
  have isKey {name : String} (isName : e.name = .text name) :
      (⟨Identifier.field name, name, false, e.occurrence⟩ : FieldKey) = e.key := by
    rw [Element.key, fieldOf, isName, Json.shown]
  by_cases isComplex : ∃ id, e.type = .complex id
  · obtain ⟨id, type⟩ := isComplex
    rw [elementField_of_complex type] at bound
    simp only at bound
    split at bound
    · simp only [bind_eq_ok_iff, pure, Except.pure, Except.ok.injEq] at bound
      obtain ⟨name, isName, rfl⟩ := bound
      exact isKey (textOf_eq_ok_iff.mp isName)
    · cases bound
  · rw [elementField_of_simple isComplex] at bound
    simp only [bind_eq_ok_iff, pure, Except.pure, Except.ok.injEq] at bound
    obtain ⟨codec, _, name, isName, rfl⟩ := bound
    exact isKey (textOf_eq_ok_iff.mp isName)

theorem exists_attributeField_iff (bound : s.enumerations.mapM bindEnumeration = .ok enumerations)
    {a : Schema.Attribute} : (∃ f, attributeField s enumerations a = .ok f) ↔
      (∃ name, a.name = .text name) ∧ ∃ codec, s.codec a.type = .ok codec ∧
        ∀ text, a.default = some text → ∃ v, codec.read text = .ok v := by
  simp only [attributeField_eq_ok_iff]
  constructor
  · rintro ⟨f, isName, hasCodec, default⟩
    rw [codecOf_eq bound] at hasCodec
    refine ⟨⟨_, isName⟩, _, hasCodec, fun text given => ?_⟩
    rcases default with ⟨none, _⟩ | ⟨other, given', read⟩
    · rw [none] at given
      cases given
    · obtain rfl := Option.some.inj (given.symm.trans given')
      exact ⟨_, read⟩
  · rintro ⟨⟨name, isName⟩, codec, hasCodec, fits⟩
    rw [← codecOf_eq bound] at hasCodec
    cases given : a.default with
    | none => exact ⟨_, .mk isName hasCodec (.inl ⟨given, rfl⟩)⟩
    | some text =>
      obtain ⟨v, read⟩ := fits text given
      exact ⟨_, .mk isName hasCodec (.inr ⟨text, given, read⟩)⟩

theorem recordNamed?_null (texts : ∀ entry ∈ records, ∃ name, entry.1 = .text name) :
    recordNamed? records .null = none := by
  unfold recordNamed?
  rw [Option.map_eq_none_iff, List.find?_eq_none]
  intro entry member
  obtain ⟨name, isName⟩ := texts entry (List.mem_reverse.mp member)
  rw [isName]
  simp [Json.same]

theorem exists_elementField_iff (bound : s.enumerations.mapM bindEnumeration = .ok enumerations)
    {owner : Label} {e : Schema.Element} (texts : ∀ entry ∈ records, ∃ name, entry.1 = .text name)
    (there : ∀ id u, e.type = .complex id → s.type? id = some u →
      ∃ inner, recordNamed? records u.qualifiedName = some inner) :
    (∃ f, elementField s enumerations records owner e = .ok f) ↔
      (∃ name, e.name = .text name) ∧ ((∃ id u, e.type = .complex id ∧ s.type? id = some u) ∨
        ∃ codec, s.codec e.type = .ok codec) := by
  by_cases isComplex : ∃ id, e.type = .complex id
  · obtain ⟨id, type⟩ := isComplex
    have noCodec : ¬ ∃ codec, s.codec e.type = .ok codec := by
      rw [type]
      rintro ⟨codec, hasCodec⟩
      cases hasCodec
    rw [elementField_of_complex type]
    cases known : s.type? id with
    | none =>
      have dangling : ¬ ∃ id' u, e.type = .complex id' ∧ s.type? id' = some u := by
        rintro ⟨id', u, type', known'⟩
        obtain rfl := DeclaredType.complex.inj (type.symm.trans type')
        rw [known] at known'
        cases known'
      rw [Option.map_none, Option.getD_none]
      simp only [recordNamed?_null texts]
      constructor
      · rintro ⟨f, absurd⟩
        cases absurd
      · rintro ⟨_, known' | hasCodec⟩
        · exact absurd known' dangling
        · exact absurd hasCodec noCodec
    | some u =>
      obtain ⟨inner, found⟩ := there id u type known
      rw [Option.map_some, Option.getD_some]
      simp only [found, bind_eq_ok_iff, textOf_eq_ok_iff, pure, Except.pure, Except.ok.injEq]
      constructor
      · rintro ⟨f, name, isName, _⟩
        exact ⟨⟨name, isName⟩, .inl ⟨id, u, type, known⟩⟩
      · rintro ⟨⟨name, isName⟩, _⟩
        exact ⟨_, name, isName, rfl⟩
  · rw [elementField_of_simple isComplex, codecOf_eq bound]
    simp only [bind_eq_ok_iff, textOf_eq_ok_iff, pure, Except.pure, Except.ok.injEq]
    constructor
    · rintro ⟨f, codec, hasCodec, name, isName, _⟩
      exact ⟨⟨name, isName⟩, .inr ⟨codec, hasCodec⟩⟩
    · rintro ⟨⟨name, isName⟩, ⟨id, u, type, _⟩ | ⟨codec, hasCodec⟩⟩
      · exact absurd ⟨id, type⟩ isComplex
      · exact ⟨_, codec, hasCodec, name, isName, rfl⟩

/-! ### Types -/

theorem keys_of_mapM {t : ComplexType} {attributes elements : List Field}
    (ofAttributes : t.attributes.mapM (attributeField s enumerations) = .ok attributes)
    (ofElements : t.elements.mapM (elementField s enumerations records t.qualifiedName) =
      .ok elements) : (attributes ++ elements).map Field.key = t.keys := by
  rw [List.map_append, ComplexType.keys]
  congr 1
  · exact (map_eq_of_forall₂ (mapM_eq_ok_iff.mp ofAttributes) fun _ _ => key_of_attributeField).symm
  · exact (map_eq_of_forall₂ (mapM_eq_ok_iff.mp ofElements) fun _ _ => key_of_elementField).symm

theorem isFieldName_of_mem_keys {t : ComplexType} :
    ∀ key ∈ t.keys, isFieldName key.name = true := by
  intro key member
  rcases List.mem_append.mp member with inAttributes | inElements
  · obtain ⟨a, _, rfl⟩ := List.mem_map.mp inAttributes
    simp only [Attribute.key, fieldOf]
    exact Identifier.isFieldName_field a.name.shown
  · obtain ⟨e, _, rfl⟩ := List.mem_map.mp inElements
    simp only [Element.key, fieldOf]
    exact Identifier.isFieldName_field e.name.shown

/-- A type can be bound, after the types that its elements refer to, exactly if it is realizable. -/
theorem exists_bindType_iff (bound : s.enumerations.mapM bindEnumeration = .ok enumerations)
    {t : ComplexType} (texts : ∀ entry ∈ records, ∃ name, entry.1 = .text name)
    (there : ∀ id u, id ∈ t.references → s.type? id = some u →
      ∃ inner, recordNamed? records u.qualifiedName = some inner) :
    (∃ type, bindType s enumerations records t = .ok type) ↔ t.Realizable s := by
  have ofAttribute (a : Schema.Attribute) := @exists_attributeField_iff _ _ bound a
  have ofElement {e : Schema.Element} (member : e ∈ t.elements) :=
    @exists_elementField_iff _ _ _ bound t.qualifiedName e texts fun id u type =>
      there id u (List.mem_filterMap.mpr ⟨e, member, by rw [type]⟩)
  have ofBuild {name : String} (isName : t.qualifiedName = .text name) {fields : List Field}
      (isKeys : fields.map Field.key = t.keys) :
      (∃ type, RecordType.build (Identifier.recordClass name) name fields = .ok type) ↔
        Buildable t.className t.keys := by
    rw [ComplexType.className, isName, Json.shown, ← isKeys]
    exact exists_build_iff (isKeys ▸ isFieldName_of_mem_keys)
  unfold bindType
  simp only [bind_eq_ok_iff, textOf_eq_ok_iff]
  constructor
  · rintro ⟨type, attributes, ofAttributes, elements, ofElements, name, isName, built⟩
    have eachAttribute : ∀ a ∈ t.attributes, _ := fun a member =>
      (ofAttribute a).mp (exists_mapM_eq_ok_iff.mp ⟨_, ofAttributes⟩ a member)
    have eachElement : ∀ e ∈ t.elements, _ := fun e member =>
      (ofElement member).mp (exists_mapM_eq_ok_iff.mp ⟨_, ofElements⟩ e member)
    refine ⟨⟨name, isName⟩, ?_, fun a member => (eachAttribute a member).2,
      fun e member => (eachElement e member).2,
      (ofBuild isName (keys_of_mapM ofAttributes ofElements)).mp ⟨type, built⟩⟩
    intro label member
    rcases List.mem_append.mp member with inAttributes | inElements
    · obtain ⟨a, inside, rfl⟩ := List.mem_map.mp inAttributes
      exact (eachAttribute a inside).1
    · obtain ⟨e, inside, rfl⟩ := List.mem_map.mp inElements
      exact (eachElement e inside).1
  · intro real
    obtain ⟨name, isName⟩ := real.name
    have attributeNamed {a : Schema.Attribute} (member : a ∈ t.attributes) :=
      real.fields a.name (List.mem_append_left _ (List.mem_map_of_mem member))
    have elementNamed {e : Schema.Element} (member : e ∈ t.elements) :=
      real.fields e.name (List.mem_append_right _ (List.mem_map_of_mem member))
    obtain ⟨attributes, ofAttributes⟩ := exists_mapM_eq_ok_iff.mpr fun a member =>
      (ofAttribute a).mpr ⟨attributeNamed member, real.attributes a member⟩
    obtain ⟨elements, ofElements⟩ := exists_mapM_eq_ok_iff.mpr fun e member =>
      (ofElement member).mpr ⟨elementNamed member, real.elements e member⟩
    obtain ⟨type, built⟩ := (ofBuild isName (keys_of_mapM ofAttributes ofElements)).mpr real.buildable
    exact ⟨type, attributes, ofAttributes, elements, ofElements, name, isName, built⟩

theorem mem_labels_putRecord {name : String} {type : RecordType} {label : Label} :
    label ∈ (putRecord (.text name) type records).map (·.1) ↔
      label = .text name ∨ label ∈ records.map (·.1) := by
  induction records with
  | nil => simp [putRecord]
  | cons entry records ih =>
    obtain ⟨n, t⟩ := entry
    rw [putRecord]
    split
    · rename_i same
      rw [same_text_iff.mp same]
      simp only [List.map_cons, List.mem_cons]
      tauto
    · simp only [List.map_cons, List.mem_cons, ih]
      tauto

/-- The record types made so far: they are under texts, and there is one for each of the types before. -/
structure BoundSoFar (s : Schema) (done : List TypeId) (records : List (Label × RecordType)) :
    Prop where
  texts : ∀ label ∈ records.map (·.1), ∃ name, label = .text name
  there : ∀ id ∈ done, ∀ t, s.type? id = some t → t.qualifiedName ∈ records.map (·.1)

namespace BoundSoFar

variable {done : List TypeId} {id : TypeId} {t : ComplexType}

theorem nil : BoundSoFar s [] [] := ⟨by simp, by simp⟩

theorem exists_recordNamed? (soFar : BoundSoFar s done records) (before : id ∈ done)
    (known : s.type? id = some t) : ∃ inner, recordNamed? records t.qualifiedName = some inner := by
  have listed := soFar.there id before t known
  obtain ⟨name, isName⟩ := soFar.texts _ listed
  rw [isName] at listed ⊢
  obtain ⟨⟨_, type⟩, member, rfl⟩ := List.mem_map.mp listed
  exact BoundSchema.exists_recordNamed? member

theorem skip (soFar : BoundSoFar s done records) (unknown : s.type? id = none) :
    BoundSoFar s (done ++ [id]) records := by
  refine ⟨soFar.texts, fun other member u found => ?_⟩
  rcases List.mem_append.mp member with earlier | isId
  · exact soFar.there other earlier u found
  · rw [List.mem_singleton.mp isId, unknown] at found
    cases found

theorem put (soFar : BoundSoFar s done records) (known : s.type? id = some t) {name : String}
    (isName : t.qualifiedName = .text name) (type : RecordType) :
    BoundSoFar s (done ++ [id]) (putRecord (.text name) type records) := by
  refine ⟨fun label listed => ?_, fun other member u found => mem_labels_putRecord.mpr ?_⟩
  · rcases mem_labels_putRecord.mp listed with rfl | earlier
    · exact ⟨name, rfl⟩
    · exact soFar.texts label earlier
  · rcases List.mem_append.mp member with earlier | isId
    · exact .inr (soFar.there other earlier u found)
    · rw [List.mem_singleton.mp isId, known] at found
      exact .inl (Option.some.inj found ▸ isName)

end BoundSoFar

/-- Types can be bound in order, given record types for those before them, exactly if each of them is
realizable. -/
theorem exists_bindTypes_iff (bound : s.enumerations.mapM bindEnumeration = .ok enumerations)
    {done ids : List TypeId} (sorted : s.Ordered (done ++ ids)) (soFar : BoundSoFar s done records) :
    (∃ results, bindTypes s enumerations records (ids.filterMap s.type?) = .ok results) ↔
      ∀ id ∈ ids, ∀ t, s.type? id = some t → t.Realizable s := by
  induction ids generalizing done records with
  | nil => simp [bindTypes]
  | cons id ids ih =>
    have shifted : s.Ordered ((done ++ [id]) ++ ids) := by simpa using sorted
    cases known : s.type? id with
    | none =>
      rw [List.filterMap_cons_none known, ih shifted (soFar.skip known)]
      simp [known]
    | some t =>
      rw [List.filterMap_cons_some known, bindTypes, List.forall_mem_cons]
      -- what the type refers to comes before it, and so has its record type
      have here := @exists_bindType_iff _ _ records bound t (by simpa using soFar.texts)
        fun r u reference found =>
          soFar.exists_recordNamed? (sorted.mem_before ⟨t, known, reference⟩) found
      have next {name : String} (isName : t.qualifiedName = .text name) (type : RecordType) :=
        ih shifted (soFar.put known isName type)
      constructor
      · rintro ⟨results, boundAll⟩
        obtain ⟨type, boundType, boundRest⟩ := bind_eq_ok_iff.mp boundAll
        have real := here.mp ⟨type, boundType⟩
        obtain ⟨name, isName⟩ := real.name
        rw [isName] at boundRest
        refine ⟨fun u found => ?_, (next isName type).mp ⟨results, boundRest⟩⟩
        obtain rfl := Option.some.inj (known.symm.trans found)
        exact real
      · rintro ⟨real, rest⟩
        obtain ⟨type, boundType⟩ := here.mpr (real t known)
        obtain ⟨name, isName⟩ := (real t known).name
        obtain ⟨results, boundRest⟩ := (next isName type).mpr rest
        exact ⟨results, bind_eq_ok_iff.mpr ⟨type, boundType, isName ▸ boundRest⟩⟩

/-- A schema that passes its checks can be bound exactly if it is realizable. -/
theorem exists_bind_iff (valid : s.validate = .ok ()) :
    (∃ b, BoundSchema.bind s = .ok b) ↔ s.Realizable := by
  have checked := checked_of_validate valid
  obtain ⟨ids, walked⟩ := exists_dependencyIds_iff.mpr checked.acyclic
  have sorted := (walk_of_dependencyIds walked).sorted
  have ordered : s.dependencyOrder = .ok (ids.filterMap s.type?) := by
    rw [dependencyOrder, walked, Except.map]
  have ofEnumerations : (∃ enumerations, s.enumerations.mapM bindEnumeration = .ok enumerations) ↔
      ∀ e ∈ s.enumerations, e.Realizable := by
    rw [exists_mapM_eq_ok_iff]
    refine forall₂_congr fun e member => ?_
    exact exists_bindEnumeration_iff (checked.enumerations e member) (checked.tags e member)
  have ofTypes {enumerations : List (Label × Enumeration)}
      (bound : s.enumerations.mapM bindEnumeration = .ok enumerations) :=
    @exists_bindTypes_iff s enumerations [] bound [] ids (by simpa using sorted) .nil
  unfold BoundSchema.bind
  simp only [bind_eq_ok_iff, valid, ordered, pure, Except.pure, Except.ok.injEq]
  constructor
  · rintro ⟨b, _, _, enumerations, bound, _, rfl, results, boundTypes, _⟩
    refine ⟨ofEnumerations.mp ⟨enumerations, bound⟩, fun id t reached known => ?_⟩
    exact (ofTypes bound).mp ⟨results, boundTypes⟩ id ((mem_dependencyIds_iff walked).mpr reached) t known
  · intro real
    obtain ⟨enumerations, bound⟩ := ofEnumerations.mpr real.enumerations
    obtain ⟨results, boundTypes⟩ := (ofTypes bound).mpr fun id member t known =>
      real.types id t ((mem_dependencyIds_iff walked).mp member) known
    exact ⟨_, (), trivial, enumerations, bound, _, rfl, results, boundTypes, rfl⟩

end BoundSchema

/-- The definition of a schema whose only type has one attribute, which is required and of an
enumeration with a single text. -/
def modeDefinition (value : String) : Json :=
  .object [
    ("name", .text "sole"),
    ("enums", .array [.object [("name", .text "Mode"), ("values", .array [.text value])]]),
    ("types", .array [.object [
      ("name", .text "Sole"),
      ("attributes", .array [.object [
        ("name", .text "mode"), ("type", .text "Mode"), ("required", .boolean true)]])]]),
    ("root", .object [("element", .text "sole"), ("type", .text "Sole")])]

def modeSchema (value : String) : Schema := {
  name := .text "sole"
  rootElement := .text "sole"
  rootType := 0
  declared := [⟨0, .text "Sole", .text "Sole", none,
    [⟨.text "mode", .enumerated ⟨.text "Mode", [value]⟩, true, none⟩], []⟩]
  undeclared := []
  enumerations := [⟨.text "Mode", [value]⟩]
  package := .null }

theorem load_modeDefinition_mro :
    Schema.load (modeDefinition "mro") (.text "sole") = .ok (modeSchema "mro") := by rfl

theorem not_realizable_mro : ¬ (modeSchema "mro").Realizable := by
  intro real
  exact (real.enumerations _ (List.mem_singleton.mpr rfl)).tags List.mem_cons_self

namespace BoundSchema

/-- Shelves can be bound. A schema that declares the text `mro` cannot, though it passes its checks. -/
theorem exists_bind_iff_shelf_and_mro :
    (shelfSchema.validate = .ok () ∧ shelfSchema.Realizable) ∧
      (modeSchema "mro").validate = .ok () ∧ ¬ ∃ b, BoundSchema.bind (modeSchema "mro") = .ok b :=
  ⟨⟨rfl, (exists_bind_iff rfl).mp ⟨shelfBound, bind_shelfSchema⟩⟩,
    rfl, fun bound => not_realizable_mro ((exists_bind_iff rfl).mp bound)⟩

/-- A loaded schema that passes its checks and yet cannot be bound. -/
theorem bind_modeSchema_mro :
    Schema.load (modeDefinition "mro") (.text "sole") = .ok (modeSchema "mro") ∧
      (modeSchema "mro").validate = .ok () ∧
      BoundSchema.bind (modeSchema "mro") = .error (.enumeration .reservedTag) :=
  ⟨load_modeDefinition_mro, rfl, rfl⟩

end BoundSchema

end XmlRecords
