import XmlRecords.Proofs.Binding
import XmlRecords.Proofs.ReadingFaults

/-!
What the record types of a bound schema read, and when they refuse an element.
-/

set_option autoImplicit false
set_option relaxedAutoImplicit false

namespace XmlRecords

open Xml

/-- Fields that can be set in a record, and attributes that can be looked up. -/
def Field.Accessible (fields : List Field) : Prop :=
  ∀ f ∈ fields, f.key.settingFault? = none ∧
    (f.key.isAttribute = true → ¬ Fails (attributeQuery f.key.xmlName))

theorem RecordType.not_blocked {type : RecordType} (accessible : type.Throughout Field.Accessible)
    (tag : StartTag) (children : List Node) : ¬ type.Blocked tag children := by
  induction accessible generalizing tag children with
  | mk own _ ih =>
    intro bad
    cases bad with
    | lookup member isAttribute fails => exact (own _ member).2 isAttribute fails
    | setting member fault =>
      rw [(own _ member).1] at fault
      cases fault
    | nested member _ inner _ below => exact ih _ member _ inner _ _ below
    | missing member _ inner _ _ below => exact ih _ member _ inner _ _ below

namespace BoundSchema

/-- The record that an element gives holds, field by field, what the attributes and children of the
element say. No record is given exactly if some text in the element does not parse or a class that
is needed has no records; every class whose attributes can be looked up and whose fields can be set
has records. -/
theorem fromNode_spec {s : Schema} {b : BoundSchema} (bound : bind s = .ok b) {label : Schema.Label}
    {type : RecordType} (member : (label, type) ∈ b.records) (tag : StartTag)
    (children : List Node) :
    (∀ v, type.fromNode (.element tag children) = .ok v →
      ∃ values, v = .record type.layout values ∧
        List.Forall₂ (fun f w => f.HoldsOf tag children w) type.fields values) ∧
    (Fails (type.fromNode (.element tag children)) ↔
      type.Unparsable tag children ∨ type.Blocked tag children) ∧
    (type.Throughout Field.Accessible → ¬ type.Blocked tag children) := by
  have sound := sound_of_bind bound _ member
  refine ⟨?_, RecordType.fails_fromNode_iff sound tag children, ?_⟩
  · intro v read
    obtain ⟨_, _, values, isRecord, held⟩ :=
      (RecordType.fromNode_eq_ok_iff sound.fields tag children v).mp read
    exact ⟨values, isRecord, held⟩
  · exact fun accessible => RecordType.not_blocked accessible tag children

theorem fromNode_spec_shelf :
    (∃ values, Value.record shelfType.layout
        [.text "A", .list [.integer 3, .integer 4], .list [], .text "dry"] =
          .record shelfType.layout values ∧
        List.Forall₂ (fun f w => f.HoldsOf ⟨"", "shelf", [⟨"", "label", "A"⟩, ⟨"", "widths", "3 4"⟩]⟩
          [.element ⟨"", "note", []⟩ [.text "wet"], .element ⟨"", "note", []⟩ [.text "dry"]] w)
          shelfType.fields values) ∧
      (shelfType.Unparsable ⟨"", "shelf", [⟨"", "widths", "wide"⟩]⟩ [] ∨
        shelfType.Blocked ⟨"", "shelf", [⟨"", "widths", "wide"⟩]⟩ []) := by
  constructor
  · exact (fromNode_spec bind_shelfSchema shelfType_mem _ _).1 _ rfl
  · exact (fromNode_spec bind_shelfSchema shelfType_mem _ _).2.1.mp ⟨_, rfl⟩

/-- An attribute without a name cannot be looked up, so that its class has no records although its
text is fine. -/
theorem fromNode_nameless :
    Schema.load (soleDefinition "") (.text "sole") = .ok (soleSchema "") ∧
      bind (soleSchema "") = .ok (soleBound "") ∧
      (.text "Sole", soleType "") ∈ (soleBound "").records ∧
      Fails ((soleType "").fromNode (.element .bare [])) ∧
      ¬ (soleType "").Unparsable .bare [] := by
  refine ⟨rfl, rfl, by simp [soleBound], ⟨.unsuitable, rfl⟩, ?_⟩
  exact RecordType.not_unparsable_bare _

end BoundSchema

end XmlRecords
