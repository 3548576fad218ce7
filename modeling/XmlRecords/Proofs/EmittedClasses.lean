import XmlRecords.ModuleSource.Generation
import XmlRecords.Proofs.CodecConstants

/-!
The record classes of a generated module: each is that of a complex type, in terms of the constants of
the whole module.
-/

set_option autoImplicit false
set_option relaxedAutoImplicit false

namespace XmlRecords.ModuleSource

open Schema
open BoundSchema (textOf_eq_ok_iff)

/-! ### Fields -/

/-- What a field of a type holds: values of a codec that the table has, or records of the class of a
complex type. -/
inductive CodecTable.Fills (s : Schema) (table : CodecTable) :
    DeclaredType → Option String → FieldContent → Prop
  | simple {type : DeclaredType} {codec : CodecName} (default : Option String) :
      table.Names type codec → Fills s table type default (.simple codec default)
  | record {id : TypeId} {className : String} :
      classNameOf (((s.type? id).map (·.qualifiedName)).getD .null) = .ok className →
      Fills s table (.complex id) none (.record className)

structure FieldSource.Shows (s : Schema) (table : CodecTable) (name : Label) (type : DeclaredType)
    (isAttribute : Bool) (occurrence : Occurrence) (default : Option String) (f : FieldSource) :
    Prop where
  xmlName : name = .text f.key.xmlName
  key : f.key = ⟨Identifier.field f.key.xmlName, f.key.xmlName, isAttribute, occurrence⟩
  item : itemType s type = .ok f.item
  content : table.Fills s type default f.content

def FieldSource.ShowsAttribute (s : Schema) (table : CodecTable) (a : Schema.Attribute)
    (f : FieldSource) : Prop := f.Shows s table a.name a.type true a.occurrence a.default

def FieldSource.ShowsElement (s : Schema) (table : CodecTable) (e : Schema.Element)
    (f : FieldSource) : Prop := f.Shows s table e.name e.type false e.occurrence none

/-- The class of a complex type: a field for each attribute, then one for each element. -/
structure RecordClass.Of (s : Schema) (table : CodecTable) (t : ComplexType) (c : RecordClass) :
    Prop where
  name : t.qualifiedName = .text c.name
  className : c.className = t.className
  attributes : List.Forall₂ (fun a f => f.ShowsAttribute s table a) t.attributes c.attributes
  elements : List.Forall₂ (fun e f => f.ShowsElement s table e) t.elements c.elements

variable {s : Schema} {table table' : CodecTable} {t : ComplexType}

theorem CodecTable.Fills.mono {type : DeclaredType} {default : Option String}
    {content : FieldContent} (h : table.Fills s type default content)
    (kept : table.definitions <+: table'.definitions) : table'.Fills s type default content := by
  cases h with
  | simple default named => exact .simple default (named.mono kept)
  | record known => exact .record known

theorem FieldSource.Shows.mono {name : Label} {type : DeclaredType} {isAttribute : Bool}
    {occurrence : Occurrence} {default : Option String} {f : FieldSource}
    (shows : f.Shows s table name type isAttribute occurrence default)
    (kept : table.definitions <+: table'.definitions) :
    f.Shows s table' name type isAttribute occurrence default :=
  ⟨shows.xmlName, shows.key, shows.item, shows.content.mono kept⟩

theorem RecordClass.Of.mono {c : RecordClass} (h : c.Of s table t)
    (kept : table.definitions <+: table'.definitions) : c.Of s table' t :=
  ⟨h.name, h.className, h.attributes.imp fun _ _ shows => shows.mono kept,
    h.elements.imp fun _ _ shows => shows.mono kept⟩

theorem shows_attributeSource {a : Schema.Attribute} {f : FieldSource} (grown : table.Grown)
    (named : ∃ codec, table.Names a.type codec) (source : attributeSource s table a = .ok f) :
    f.ShowsAttribute s table a := by
  obtain ⟨codec, named⟩ := named
  unfold attributeSource at source
  simp only [bind_eq_ok_iff, grown.refer_eq_of_names named, pure, Except.pure, Except.ok.injEq]
    at source
  obtain ⟨name, isText, item, isItem, _, rfl, rfl⟩ := source
  exact ⟨textOf_eq_ok_iff.mp isText, rfl, isItem, .simple _ named⟩

theorem shows_elementSource {e : Schema.Element} {f : FieldSource} (grown : table.Grown)
    (named : (∀ id, e.type ≠ .complex id) → ∃ codec, table.Names e.type codec)
    (source : elementSource s table e = .ok f) : f.ShowsElement s table e := by
  unfold elementSource at source
  obtain ⟨name, isText, source⟩ := bind_eq_ok_iff.mp source
  obtain ⟨item, isItem, source⟩ := bind_eq_ok_iff.mp source
  have isName := textOf_eq_ok_iff.mp isText
  split at source
  · rename_i id isComplex
    obtain ⟨content, isContent, source⟩ := bind_eq_ok_iff.mp source
    obtain ⟨className, known, rfl⟩ := map_eq_ok_iff.mp isContent
    obtain rfl := Except.ok.inj source
    exact ⟨isName, rfl, isItem, isComplex ▸ .record known⟩
  · rename_i simple
    obtain ⟨codec, named⟩ := named fun id isComplex => simple id isComplex
    rw [grown.refer_eq_of_names named] at source
    obtain rfl := Except.ok.inj source
    exact ⟨isName, rfl, isItem, .simple none named⟩

/-! ### Classes -/

theorem mem_codecTypes_of_attribute {a : Schema.Attribute} (member : a ∈ t.attributes) :
    a.type ∈ codecTypes t := by
  unfold codecTypes
  exact List.mem_append_left _ (List.mem_append_left _ (List.mem_map_of_mem member))

theorem mem_codecTypes_of_element {e : Schema.Element} (member : e ∈ t.elements)
    (simple : ∀ id, e.type ≠ .complex id) : e.type ∈ codecTypes t := by
  unfold codecTypes
  extract_lets texts
  have kept : e ∈ texts := by
    refine List.mem_filter.mpr ⟨member, ?_⟩
    cases type : e.type with
    | complex id => exact absurd type (simple id)
    | _ => rfl
  by_cases isRepeated : e.occurrence = .repeated
  · refine List.mem_append_right _ (List.mem_map_of_mem (List.mem_filter.mpr ⟨kept, ?_⟩))
    rw [isRepeated]
    rfl
  · refine List.mem_append_left _ (List.mem_append_right _ (List.mem_map_of_mem
      (List.mem_filter.mpr ⟨kept, ?_⟩)))
    simpa using isRepeated

theorem recordClassOf_spec {c : RecordClass} (grown : table.Grown)
    (emitted : recordClassOf s table t = .ok (c, table')) :
    table'.Grown ∧ c.Of s table' t ∧ table.Extends table' (codecTypes t) := by
  unfold recordClassOf at emitted
  simp only [bind_eq_ok_iff, mapM_eq_ok_iff, pure, Except.pure, Except.ok.injEq, Prod.mk.injEq]
    at emitted
  obtain ⟨name, isText, _, _, between, referred, attributes, ofAttributes, elements, ofElements, rfl,
    rfl⟩ := emitted
  obtain ⟨grown', named, extended⟩ := grown.referAll_spec referred
  have isName := textOf_eq_ok_iff.mp isText
  refine ⟨grown', ⟨isName, ?_, ?_, ?_⟩, extended⟩
  · rw [ComplexType.className, isName, Json.shown]
  · exact forall₂_imp_mem ofAttributes fun a member f =>
      shows_attributeSource grown' (named _ (mem_codecTypes_of_attribute member))
  · exact forall₂_imp_mem ofElements fun e member f =>
      shows_elementSource grown' fun simple => named _ (mem_codecTypes_of_element member simple)

theorem recordClassesOf_spec {types : List ComplexType} {classes : List RecordClass}
    (grown : table.Grown) (emitted : recordClassesOf s table types = .ok (classes, table')) :
    table'.Grown ∧ List.Forall₂ (fun t c => c.Of s table' t) types classes ∧
      table.Extends table' (types.flatMap codecTypes) := by
  induction types generalizing table classes with
  | nil =>
    obtain ⟨rfl, rfl⟩ := Prod.mk.inj (Except.ok.inj emitted)
    exact ⟨grown, .nil, .refl table []⟩
  | cons t types ih =>
    rw [recordClassesOf] at emitted
    simp only [bind_eq_ok_iff, pure, Except.pure, Except.ok.injEq, Prod.exists, Prod.mk.injEq]
      at emitted
    obtain ⟨c, between, here, others, _, rest, rfl, rfl⟩ := emitted
    obtain ⟨grownFirst, isClass, extended⟩ := recordClassOf_spec grown here
    obtain ⟨grown', classes, onward⟩ := ih grownFirst rest
    rw [List.flatMap_cons]
    exact ⟨grown', .cons (isClass.mono onward.kept) classes, extended.trans onward⟩

end XmlRecords.ModuleSource
