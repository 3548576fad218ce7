import XmlRecords.BoundSchema
import XmlRecords.Proofs.RecordShape

/-!
What binding a schema gives: each field of a bound type comes from an attribute or an element of a
complex type, and the types inside a bound type were bound before it.
-/

set_option autoImplicit false
set_option relaxedAutoImplicit false

namespace XmlRecords

open Schema

variable {s : Schema} {enumerations : List (Label × Enumeration)}
  {records : List (Label × RecordType)}

theorem Schema.same_text_iff {label : Label} {name : String} :
    label.same (.text name) = true ↔ label = .text name := by
  cases label with
  | text other => simp [Json.same]
  | null => simp [Json.same]
  | boolean b => simp [Json.same, Json.sameAsNumber, Json.numeric?]
  | integer n => simp [Json.same, Json.sameAsNumber, Json.numeric?]
  | real x => simp [Json.same, Json.sameAsNumber, Json.numeric?]
  | array items => simp [Json.same]
  | object members => simp [Json.same]

namespace BoundSchema

/-- A field of the record type of a complex type: that of an attribute, with its default read, that
of an element of simple type, or that of an element that holds records. -/
inductive Declares (s : Schema) (enumerations : List (Label × Enumeration)) (t : ComplexType) :
    Field → Prop
  | value {a : Schema.Attribute} {codec : Codec} {default : Value} {name : String} :
      a ∈ t.attributes → a.name = .text name →
      codecOf (enumerationNamed? enumerations) a.type s.typeName = .ok codec →
      (default = .absent ∨ ∃ text, a.default = some text ∧ codec.read text = .ok default) →
      Declares s enumerations t
        (.simple ⟨Identifier.field name, name, true, a.occurrence⟩ codec default)
  | text {e : Schema.Element} {codec : Codec} {name : String} :
      e ∈ t.elements → e.name = .text name →
      codecOf (enumerationNamed? enumerations) e.type s.typeName = .ok codec →
      Declares s enumerations t
        (.simple ⟨Identifier.field name, name, false, e.occurrence⟩ codec .absent)
  | record {e : Schema.Element} {inner : RecordType} {name : String} :
      e ∈ t.elements → e.name = .text name →
      Declares s enumerations t
        (.nested ⟨Identifier.field name, name, false, e.occurrence⟩ inner .absent)

theorem textOf_eq_ok_iff {label : Label} {name : String} :
    textOf label = .ok name ↔ label = .text name := by
  cases label with
  | text s => simp [textOf]
  | null => simp [textOf]
  | boolean b => simp [textOf]
  | integer n => simp [textOf]
  | real x => simp [textOf]
  | array items => simp [textOf]
  | object members => simp [textOf]

theorem declares_attributeField {t : ComplexType} {a : Schema.Attribute} {f : Field}
    (member : a ∈ t.attributes) (bound : attributeField s enumerations a = .ok f) :
    Declares s enumerations t f ∧ f.type? = none := by
  unfold attributeField at bound
  obtain ⟨codec, hasCodec, bound⟩ := bind_eq_ok_iff.mp bound
  cases given : a.default with
  | none =>
    simp only [given, bind_eq_ok_iff, pure, Except.pure, Except.ok.injEq] at bound
    obtain ⟨_, rfl, name, isName, rfl⟩ := bound
    exact ⟨.value member (textOf_eq_ok_iff.mp isName) hasCodec (.inl rfl), rfl⟩
  | some text =>
    simp only [given, bind_eq_ok_iff, pure, Except.pure, Except.ok.injEq, ofCodec,
      mapError_eq_ok_iff] at bound
    obtain ⟨default, read, name, isName, rfl⟩ := bound
    exact ⟨.value member (textOf_eq_ok_iff.mp isName) hasCodec (.inr ⟨text, given, read⟩), rfl⟩

theorem mem_of_recordNamed? {name : Label} {type : RecordType}
    (found : recordNamed? records name = some type) : ∃ label, (label, type) ∈ records := by
  unfold recordNamed? at found
  obtain ⟨⟨label, type'⟩, first, rfl⟩ := Option.map_eq_some_iff.mp found
  exact ⟨label, List.mem_reverse.mp (List.mem_of_find?_eq_some first)⟩

theorem elementField_of_simple {owner : Label} {e : Schema.Element}
    (simple : ¬ ∃ id, e.type = .complex id) : elementField s enumerations records owner e = do
      let codec ← codecOf (enumerationNamed? enumerations) e.type s.typeName
      let name ← textOf e.name
      return Field.simple ⟨Identifier.field name, name, false, e.occurrence⟩ codec .absent := by
  unfold elementField
  cases type : e.type with
  | complex id => exact absurd ⟨id, type⟩ simple
  | _ => rfl

theorem elementField_of_complex {owner : Label} {e : Schema.Element} {id : TypeId}
    (complex : e.type = .complex id) : elementField s enumerations records owner e =
      let target : Label := ((s.type? id).map (·.qualifiedName)).getD .null
      match recordNamed? records target with
      | some type => do
        let name ← textOf e.name
        return Field.nested ⟨Identifier.field name, name, false, e.occurrence⟩ type .absent
      | none => .error (.located (.refersToUnbound e.name target) owner) := by
  unfold elementField
  rw [complex]
  rfl

theorem declares_elementField {t : ComplexType} {e : Schema.Element} {f : Field}
    (member : e ∈ t.elements)
    (bound : elementField s enumerations records t.qualifiedName e = .ok f) :
    Declares s enumerations t f ∧
      ∀ inner, f.type? = some inner → ∃ label, (label, inner) ∈ records := by
  by_cases isComplex : ∃ id, e.type = .complex id
  · obtain ⟨id, type⟩ := isComplex
    rw [elementField_of_complex type] at bound
    simp only at bound
    split at bound
    · rename_i inner found
      simp only [bind_eq_ok_iff, pure, Except.pure, Except.ok.injEq] at bound
      obtain ⟨name, isName, rfl⟩ := bound
      refine ⟨.record member (textOf_eq_ok_iff.mp isName), ?_⟩
      rintro _ ⟨⟩
      exact mem_of_recordNamed? found
    · cases bound
  · rw [elementField_of_simple isComplex] at bound
    simp only [bind_eq_ok_iff, pure, Except.pure, Except.ok.injEq] at bound
    obtain ⟨codec, hasCodec, name, isName, rfl⟩ := bound
    refine ⟨.text member (textOf_eq_ok_iff.mp isName) hasCodec, ?_⟩
    intro inner nested
    cases nested

theorem fields_of_build {className name : String} {fields : List Field} {type : RecordType}
    (built : RecordType.build className name fields = .ok type) :
    type = .mk className name fields ∧ (fields.map (·.key.name)).Nodup := by
  unfold RecordType.build at built
  simp only [List.map_map] at built
  split at built
  · cases built
  rename_i valid
  iterate 3
    split at built
    · cases built
  simp only [Bool.or_eq_true, decide_eq_true_eq, not_or, not_not] at valid
  exact ⟨(Except.ok.inj built).symm, valid.2⟩

/-- The fields of a bound type are declared, have distinct names, and hold records of types bound
before. -/
theorem fields_of_bindType {t : ComplexType} {type : RecordType}
    (bound : bindType s enumerations records t = .ok type) :
    (type.fields.map (·.key.name)).Nodup ∧
      ∀ f ∈ type.fields, Declares s enumerations t f ∧
        ∀ inner, f.type? = some inner → ∃ label, (label, inner) ∈ records := by
  unfold bindType at bound
  simp only [bind_eq_ok_iff, mapM_eq_ok_iff] at bound
  obtain ⟨attributes, ofAttributes, elements, ofElements, name, _, built⟩ := bound
  obtain ⟨rfl, distinct⟩ := fields_of_build built
  refine ⟨distinct, ?_⟩
  intro f member
  rcases List.mem_append.mp member with inAttributes | inElements
  · obtain ⟨a, declared, isField⟩ :=
      exists_of_forall₂_left ofAttributes.flip inAttributes
    obtain ⟨declares, simple⟩ := declares_attributeField declared isField
    refine ⟨declares, ?_⟩
    intro inner nested
    rw [simple] at nested
    cases nested
  · obtain ⟨e, declared, isField⟩ :=
      exists_of_forall₂_left ofElements.flip inElements
    exact declares_elementField declared isField

theorem mem_putRecord {name label : Label} {type other : RecordType}
    (member : (label, other) ∈ putRecord name type records) :
    other = type ∨ (label, other) ∈ records := by
  induction records with
  | nil =>
    rw [putRecord, List.mem_singleton] at member
    exact .inl (Prod.mk.inj member).2
  | cons first rest ih =>
    obtain ⟨n, t⟩ := first
    rw [putRecord] at member
    split at member
    · rcases List.mem_cons.mp member with here | below
      · exact .inl (Prod.mk.inj here).2
      · exact .inr (List.mem_cons_of_mem _ below)
    · rcases List.mem_cons.mp member with here | below
      · exact .inr (List.mem_cons.mpr (.inl here))
      · exact (ih below).imp_right (List.mem_cons_of_mem _)

/-- What holds of the fields of every complex type holds throughout the types bound from them. -/
theorem throughout_of_bindTypes {P : List Field → Prop} {types : List ComplexType}
    {results : List (Label × RecordType)}
    (own : ∀ t ∈ types, ∀ fields : List Field, (fields.map (·.key.name)).Nodup →
      (∀ f ∈ fields, Declares s enumerations t f) → P fields)
    (before : ∀ entry ∈ records, entry.2.Throughout P)
    (bound : bindTypes s enumerations records types = .ok results) :
    ∀ entry ∈ results, entry.2.Throughout P := by
  induction types generalizing records with
  | nil =>
    rw [bindTypes] at bound
    obtain rfl := Except.ok.inj bound
    exact before
  | cons t types ih =>
    rw [bindTypes] at bound
    obtain ⟨type, boundType, bound⟩ := bind_eq_ok_iff.mp bound
    obtain ⟨distinct, declared⟩ := fields_of_bindType boundType
    have here : type.Throughout P := by
      cases type with
      | mk className name fields =>
        refine .mk (own t List.mem_cons_self fields distinct fun f member => (declared f member).1) ?_
        intro f member inner nested
        obtain ⟨label, inside⟩ := (declared f member).2 inner nested
        exact before _ inside
    apply ih (fun t member => own t (List.mem_cons_of_mem _ member)) ?_ bound
    rintro ⟨label, other⟩ member
    rcases mem_putRecord member with rfl | old
    · exact here
    · exact before _ old

theorem mem_of_type? {id : TypeId} {t : ComplexType} (found : s.type? id = some t) :
    t ∈ s.declared ++ s.undeclared := List.mem_of_find?_eq_some found

theorem throughout_of_bind {P : List Field → Prop} {b : BoundSchema} (bound : bind s = .ok b)
    (own : ∀ t ∈ s.declared ++ s.undeclared, ∀ fields : List Field,
      (fields.map (·.key.name)).Nodup → (∀ f ∈ fields, Declares s b.enumerations t f) → P fields) :
    ∀ entry ∈ b.records, entry.2.Throughout P := by
  unfold bind at bound
  simp only [bind_eq_ok_iff, pure, Except.pure, Except.ok.injEq] at bound
  obtain ⟨_, _, enumerations, _, types, ordered, results, boundTypes, rfl⟩ := bound
  unfold dependencyOrder at ordered
  obtain ⟨ids, _, rfl⟩ := map_eq_ok_iff.mp ordered
  apply throughout_of_bindTypes _ (by simp) boundTypes
  intro t member
  obtain ⟨id, _, found⟩ := List.mem_filterMap.mp member
  exact own t (mem_of_type? found)

theorem sound_of_declares {t : ComplexType} {fields : List Field}
    (distinct : (fields.map (·.key.name)).Nodup)
    (declared : ∀ f ∈ fields, Declares s enumerations t f) : Field.Sound fields := by
  refine ⟨distinct, ?_, ?_, ?_, ?_⟩
  · intro f member
    cases declared f member with
    | value => simp only [Field.key]
    | text => simp only [Field.key]
    | record => simp only [Field.key]
  · intro f member isAttribute
    cases declared f member with
    | value => exact ⟨_, rfl⟩
    | text => exact ⟨_, rfl⟩
    | record => cases isAttribute
  · intro f member isAttribute
    cases declared f member with
    | @value a _ _ _ =>
      show a.occurrence ≠ .repeated
      unfold Schema.Attribute.occurrence
      split <;> decide
    | text => cases isAttribute
    | record => cases isAttribute
  · intro f member element
    cases declared f member with
    | value => cases element
    | text => rfl
    | record => rfl

theorem sound_of_bind {b : BoundSchema} (bound : bind s = .ok b) :
    ∀ entry ∈ b.records, entry.2.Throughout Field.Sound :=
  throughout_of_bind bound fun _ _ _ distinct declared => sound_of_declares distinct declared

end BoundSchema

/-! ### Two schemas to try laws on -/

/-- The definition of a schema whose only type has one attribute, a required text. -/
def soleDefinition (attr : String) : Json :=
  .object [
    ("name", .text "sole"),
    ("types", .array [.object [
      ("name", .text "Sole"),
      ("attributes", .array [.object [
        ("name", .text attr), ("type", .text "string"), ("required", .boolean true)]])]]),
    ("root", .object [("element", .text "sole"), ("type", .text "Sole")])]

def soleSchema (attr : String) : Schema := {
  name := .text "sole"
  rootElement := .text "sole"
  rootType := 0
  declared := [⟨0, .text "Sole", .text "Sole", none,
    [⟨.text attr, .primitive .string, true, none⟩], []⟩]
  undeclared := []
  enumerations := []
  package := .null }

def soleType (attr : String) : RecordType :=
  .mk "Sole" "Sole" [.simple ⟨Identifier.field attr, attr, true, .once⟩ .text .absent]

def soleBound (attr : String) : BoundSchema := ⟨soleSchema attr, [], [(.text "Sole", soleType attr)]⟩

/-- The definition of shelves with a label, perhaps some widths and a note, and any number of
books, which have titles and may be of a kind. -/
def shelfDefinition : Json :=
  .object [
    ("name", .text "shelf"),
    ("enums", .array [.object [
      ("name", .text "Kind"), ("values", .array [.text "novel", .text "atlas"])]]),
    ("types", .array [
      .object [
        ("name", .text "Book"),
        ("attributes", .array [.object [("name", .text "kind"), ("type", .text "Kind")]]),
        ("elements", .array [.object [("name", .text "title"), ("type", .text "string")]])],
      .object [
        ("name", .text "Shelf"),
        ("attributes", .array [
          .object [("name", .text "label"), ("type", .text "string"), ("required", .boolean true)],
          .object [("name", .text "widths"), ("type", .text "int32"), ("list", .boolean true)]]),
        ("elements", .array [
          .object [
            ("name", .text "book"), ("type", .text "Book"), ("maxOccurs", .text "unbounded")],
          .object [("name", .text "note"), ("type", .text "string"), ("minOccurs", .integer 0)]])]]),
    ("root", .object [("element", .text "shelf"), ("type", .text "Shelf")])]

def kindDeclared : Enumerated := ⟨.text "Kind", ["novel", "atlas"]⟩

def kind : Enumeration := ⟨"Kind", [("novel", "novel"), ("atlas", "atlas")]⟩

def shelfSchema : Schema := {
  name := .text "shelf"
  rootElement := .text "shelf"
  rootType := 1
  declared := [
    ⟨0, .text "Book", .text "Book", none, [⟨.text "kind", .enumerated kindDeclared, false, none⟩],
      [⟨.text "title", .primitive .string, .once⟩]⟩,
    ⟨1, .text "Shelf", .text "Shelf", none,
      [⟨.text "label", .primitive .string, true, none⟩,
        ⟨.text "widths", .list (.primitive .int32), false, none⟩],
      [⟨.text "book", .complex 0, .repeated⟩, ⟨.text "note", .primitive .string, .optional⟩]⟩]
  undeclared := []
  enumerations := [kindDeclared]
  package := .null }

def bookType : RecordType :=
  .mk "Book" "Book" [
    .simple ⟨"kind", "kind", true, .optional⟩ (.enumeration kind) .absent,
    .simple ⟨"title", "title", false, .once⟩ .text .absent]

def shelfType : RecordType :=
  .mk "Shelf" "Shelf" [
    .simple ⟨"label", "label", true, .once⟩ .text .absent,
    .simple ⟨"widths", "widths", true, .optional⟩ (.list (.integer .int32)) .absent,
    .nested ⟨"book", "book", false, .repeated⟩ bookType .absent,
    .simple ⟨"note", "note", false, .optional⟩ .text .absent]

def shelfBound : BoundSchema :=
  ⟨shelfSchema, [(.text "Kind", kind)], [(.text "Book", bookType), (.text "Shelf", shelfType)]⟩

theorem load_shelfDefinition : Schema.load shelfDefinition (.text "shelf") = .ok shelfSchema := by
  rfl

theorem bind_shelfSchema : BoundSchema.bind shelfSchema = .ok shelfBound := by
  rfl

theorem shelfType_mem : (.text "Shelf", shelfType) ∈ shelfBound.records := by
  simp [shelfBound]

end XmlRecords
