import Mathlib.Data.List.Nodup
import XmlRecords.Proofs.Outcomes
import XmlRecords.Record.FromElement

/-!
The shape of record types. The fields of a bound type have names of their own, which follow from
their names in documents, and its attributes are of simple types; the same holds of every type
inside it.
-/

set_option autoImplicit false
set_option relaxedAutoImplicit false

namespace XmlRecords

open Xml

/-- The fields of a record type, and those of every type inside it, are as `P` says. -/
inductive RecordType.Throughout (P : List Field → Prop) : RecordType → Prop
  | mk {className name : String} {fields : List Field} : P fields →
      (∀ f ∈ fields, ∀ inner, f.type? = some inner → RecordType.Throughout P inner) →
      RecordType.Throughout P (.mk className name fields)

namespace RecordType.Throughout

variable {P Q : List Field → Prop} {type : RecordType}

theorem fields (h : type.Throughout P) : P type.fields := by
  cases h with
  | mk own _ => exact own

theorem inner (h : type.Throughout P) {f : Field} (member : f ∈ type.fields) {inner : RecordType}
    (nested : f.type? = some inner) : inner.Throughout P := by
  cases h with
  | mk _ below => exact below f member inner nested

theorem imp (h : type.Throughout P) (weaken : ∀ fields, P fields → Q fields) :
    type.Throughout Q := by
  induction h with
  | mk own _ ih => exact .mk (weaken _ own) ih

end RecordType.Throughout

namespace Field

@[simp] theorem slot_name (f : Field) : f.slot.name = f.key.name := rfl

@[simp] theorem slot_xmlName (f : Field) : f.slot.xmlName = f.key.xmlName := rfl

@[simp] theorem slot_isAttribute (f : Field) : f.slot.isAttribute = f.key.isAttribute := rfl

@[simp] theorem slot_occurrence (f : Field) : f.slot.occurrence = f.key.occurrence := rfl

@[simp] theorem slot_codec (f : Field) : f.slot.codec = f.codec? := rfl

theorem codec?_eq_none {f : Field} {inner : RecordType} (nested : f.type? = some inner) :
    f.codec? = none := by
  cases f with
  | simple key codec default => cases nested
  | nested key inner' default => rfl

theorem not_nested_of_simple {f : Field} {codec : Codec} (simple : f.codec? = some codec)
    {inner : RecordType} : f.type? ≠ some inner := by
  intro nested
  rw [codec?_eq_none nested] at simple
  cases simple

/-- Fields with distinct names, each derived from the name in documents. Attributes are of simple
types and occur once at most, and elements have no defaults. -/
structure Sound (fields : List Field) : Prop where
  distinct : (fields.map (·.key.name)).Nodup
  named : ∀ f ∈ fields, f.key.name = Identifier.field f.key.xmlName
  simple : ∀ f ∈ fields, f.key.isAttribute = true → ∃ codec, f.codec? = some codec
  single : ∀ f ∈ fields, f.key.isAttribute = true → f.key.occurrence ≠ .repeated
  plain : ∀ f ∈ fields, f.key.isAttribute = false → f.default = .absent

namespace Sound

variable {fields : List Field} {f g : Field}

theorem element_of_type (sound : Sound fields) (hf : f ∈ fields) {inner : RecordType}
    (nested : f.type? = some inner) : f.key.isAttribute = false := by
  cases isAttribute : f.key.isAttribute with
  | false => rfl
  | true =>
    obtain ⟨codec, simple⟩ := sound.simple f hf isAttribute
    exact absurd nested (not_nested_of_simple simple)

theorem eq_of_name (sound : Sound fields) (hf : f ∈ fields) (hg : g ∈ fields)
    (same : f.key.name = g.key.name) : f = g :=
  List.inj_on_of_nodup_map sound.distinct hf hg same

theorem eq_of_xmlName (sound : Sound fields) (hf : f ∈ fields) (hg : g ∈ fields)
    (same : f.key.xmlName = g.key.xmlName) : f = g := by
  apply sound.eq_of_name hf hg
  rw [sound.named f hf, sound.named g hg, same]

theorem forElement?_eq_some_iff (sound : Sound fields) (name : String) :
    forElement? fields name = some f ↔
      f ∈ fields ∧ f.key.isAttribute = false ∧ f.key.xmlName = name := by
  unfold forElement?
  constructor
  · intro found
    have member := List.mem_of_find?_eq_some found
    have holds := List.find?_some found
    simp only [Bool.and_eq_true, Bool.not_eq_true', beq_iff_eq] at holds
    exact ⟨List.mem_reverse.mp member, holds.1, holds.2⟩
  · rintro ⟨member, element, named⟩
    -- the field is found, as no other field has its name in documents
    cases found : fields.reverse.find? fun f => !f.key.isAttribute && f.key.xmlName == name with
    | none =>
      have absent := List.find?_eq_none.mp found f (List.mem_reverse.mpr member)
      simp [element, named] at absent
    | some g =>
      have belongs := List.mem_reverse.mp (List.mem_of_find?_eq_some found)
      have holds := List.find?_some found
      simp only [Bool.and_eq_true, Bool.not_eq_true', beq_iff_eq] at holds
      rw [sound.eq_of_xmlName belongs member (holds.2.trans named.symm)]

theorem not_shadowed (sound : Sound fields) (member : f ∈ fields) : f.isShadowed fields = false := by
  unfold isShadowed
  cases element : f.key.isAttribute with
  | true => rfl
  | false =>
    have found := (sound.forElement?_eq_some_iff f.key.xmlName).mpr ⟨member, element, rfl⟩
    unfold forElement? at found
    rw [found]
    simp

theorem checkReadable_eq (sound : Sound fields) (values : List Value) :
    checkReadable fields values = .ok values := by
  have none : fields.any (·.isShadowed fields) = false := by
    rw [List.any_eq_false]
    intro f member
    rw [sound.not_shadowed member]
    decide
  rw [checkReadable, none]
  rfl

end Sound

end Field

theorem RecordType.construct_eq_ok_iff {type : RecordType} {values : List Value} {v : Value} :
    type.construct values = .ok v ↔
      (∀ f ∈ type.fields, f.key.settingFault? = none) ∧ v = .record type.layout values := by
  unfold RecordType.construct
  split
  · rename_i obstructed
    obtain ⟨f, member, named⟩ := List.any_eq_true.mp obstructed
    have fault : f.key.settingFault? = some .wrongKind := if_pos (.inr (beq_iff_eq.mp named))
    simp only [reduceCtorEq, false_iff, not_and]
    intro none
    rw [none f member] at fault
    cases fault
  cases found : type.fields.findSome? (·.key.settingFault?) with
  | none =>
    have none := List.findSome?_eq_none_iff.mp found
    simp only [Except.ok.injEq]
    exact ⟨fun h => ⟨none, h.symm⟩, fun h => h.2.symm⟩
  | some fault =>
    obtain ⟨f, member, h⟩ := List.exists_of_findSome?_eq_some found
    simp only [reduceCtorEq, false_iff, not_and]
    intro none
    rw [none f member] at h
    cases h

end XmlRecords
