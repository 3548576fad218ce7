import XmlRecords.Proofs.AttributeOrder

/-!
Attributes without a value. They read as if they were absent, except where one is found in place of
another that has a value: the search for an attribute ends at the first that answers to the name,
and takes it although it is empty.
-/

set_option autoImplicit false
set_option relaxedAutoImplicit false

namespace XmlRecords

open Xml

namespace Xml

/-- Attributes with some of the empty ones left out. -/
inductive Stripped : List Attribute → List Attribute → Prop
  | nil : Stripped [] []
  | keep (a : Attribute) {attributes rest : List Attribute} :
      Stripped attributes rest → Stripped (a :: attributes) (a :: rest)
  | leave {a : Attribute} {attributes rest : List Attribute} :
      a.value = "" → Stripped attributes rest → Stripped (a :: attributes) rest

/-- A tree with some of the empty attributes of its elements left out. -/
def Node.Pruned : Node → Node → Prop := Node.Retagged Stripped

/-- The attributes that answer to a name: first the one asked for, then those in namespaces. -/
def answering (query : String × String) (name : String) (attributes : List Attribute) :
    List Attribute :=
  attributes.filter (fun a => a.space == query.1 && a.name == query.2) ++
    attributes.filter fun a => a.space != "" && a.name == name

def firstValue (attributes : List Attribute) : String := (attributes.head?.map (·.value)).getD ""

end Xml

/-- The attribute found for a field is empty, and the first with a value that answers to the same name
reads differently. -/
def Field.Masked (f : Field) (attributes : List Attribute) : Prop :=
  ∃ query before b after, attributeQuery f.key.xmlName = .ok query ∧
    answering query f.key.xmlName attributes = before ++ b :: after ∧
    before ≠ [] ∧ (∀ a ∈ before, a.value = "") ∧ b.value ≠ "" ∧ f.reading b.value ≠ f.initial

/-- An empty attribute is found in place of one with a value at an element read as a record, or below
it. -/
def RecordType.Masks : RecordType → Node → Prop := RecordType.Meets Field.Masked

theorem Field.not_masked_of_distinct {f : Field} {attributes : List Attribute}
    (plain : ∀ a ∈ attributes, a.space = "") (distinct : (attributes.map (·.name)).Nodup) :
    ¬ f.Masked attributes := by
  rintro ⟨query, before, b, after, _, shape, some, allEmpty, hasValue, _⟩
  have asked : ∀ a ∈ answering query f.key.xmlName attributes,
      a ∈ attributes ∧ a.name = query.2 := by
    intro a member
    rcases List.mem_append.mp member with first | second
    · obtain ⟨present, named⟩ := List.mem_filter.mp first
      rw [Bool.and_eq_true, beq_iff_eq, beq_iff_eq] at named
      exact ⟨present, named.2⟩
    · obtain ⟨present, namespaced⟩ := List.mem_filter.mp second
      simp [plain a present] at namespaced
  obtain ⟨a, first⟩ := List.exists_mem_of_ne_nil before some
  obtain ⟨hasA, nameA⟩ := asked a (by simp [shape, first])
  obtain ⟨hasB, nameB⟩ := asked b (by simp [shape])
  have same : a = b := List.inj_on_of_nodup_map distinct hasA hasB (nameA.trans nameB.symm)
  exact hasValue (same ▸ allEmpty a first)

/-! ### Looking up an attribute -/

theorem attributeValue_eq (attributes : List Attribute) (name : String) :
    attributeValue attributes name =
      (attributeQuery name).map fun query => firstValue (answering query name attributes) := by
  unfold attributeValue
  cases attributeQuery name with
  | error fault => rfl
  | ok query =>
    obtain ⟨space, localName⟩ := query
    simp only [bind, Except.bind, Except.map, firstValue, answering, List.head?_append,
      List.head?_filter]
    cases attributes.find? fun a => a.space == space && a.name == localName with
    | some a => rfl
    | none => cases attributes.find? fun a => a.space != "" && a.name == name <;> rfl

namespace Xml.Stripped

variable {attributes rest : List Attribute}

theorem filter (stripped : Stripped attributes rest) (p : Attribute → Bool) :
    Stripped (attributes.filter p) (rest.filter p) := by
  induction stripped with
  | nil => exact .nil
  | keep a _ ih =>
    by_cases kept : p a = true
    · rw [List.filter_cons_of_pos kept, List.filter_cons_of_pos kept]
      exact ih.keep a
    · rw [List.filter_cons_of_neg kept, List.filter_cons_of_neg kept]
      exact ih
  | @leave a _ _ empty _ ih =>
    by_cases kept : p a = true
    · rw [List.filter_cons_of_pos kept]
      exact ih.leave empty
    · rw [List.filter_cons_of_neg kept]
      exact ih

theorem append {more others : List Attribute} (stripped : Stripped attributes rest)
    (further : Stripped more others) : Stripped (attributes ++ more) (rest ++ others) := by
  induction stripped with
  | nil => exact further
  | keep a _ ih => exact ih.keep a
  | leave empty _ ih => exact ih.leave empty

theorem answering (stripped : Stripped attributes rest) (query : String × String) (name : String) :
    Stripped (Xml.answering query name attributes) (Xml.answering query name rest) :=
  (stripped.filter _).append (stripped.filter _)

theorem all (attributes : List Attribute) :
    Stripped attributes (attributes.filter (·.value != "")) := by
  induction attributes with
  | nil => exact .nil
  | cons a attributes ih =>
    by_cases empty : a.value = ""
    · rw [List.filter_cons_of_neg (by simp [empty])]
      exact ih.leave empty
    · rw [List.filter_cons_of_pos (by simp [empty])]
      exact ih.keep a

theorem firstValue_cases (stripped : Stripped attributes rest) :
    firstValue rest = firstValue attributes ∨
      ∃ before b after, attributes = before ++ b :: after ∧ before ≠ [] ∧
        (∀ a ∈ before, a.value = "") ∧ b.value ≠ "" ∧ firstValue attributes = "" ∧
        firstValue rest = b.value := by
  induction stripped with
  | nil => exact .inl rfl
  | keep a _ _ => exact .inl rfl
  | @leave a attributes rest empty _ ih =>
    have first : firstValue (a :: attributes) = "" := empty
    rcases ih with same | ⟨before, b, after, rfl, _, allEmpty, hasValue, _, next⟩
    · cases attributes with
      | nil => exact .inl (same.trans first.symm)
      | cons c attributes =>
        by_cases noValue : c.value = ""
        · exact .inl (same.trans (noValue.trans first.symm))
        · exact .inr ⟨[a], c, attributes, rfl, by simp, by simpa using empty, noValue, first, same⟩
    · exact .inr ⟨a :: before, b, after, rfl, by simp,
        List.forall_mem_cons.mpr ⟨empty, allEmpty⟩, hasValue, first, next⟩

end Xml.Stripped

/-- An attribute field reads the same without some empty attributes, unless one is found in place of
another. -/
theorem fromAttribute_of_stripped {f : Field} {attributes rest : List Attribute}
    (stripped : Stripped attributes rest) (clear : ¬ f.Masked attributes) :
    f.fromAttribute rest = f.fromAttribute attributes := by
  rw [fromAttribute_eq, fromAttribute_eq, attributeValue_eq, attributeValue_eq]
  cases asked : attributeQuery f.key.xmlName with
  | error fault => rfl
  | ok query =>
    simp only [Except.map, bind, Except.bind]
    rcases (stripped.answering query f.key.xmlName).firstValue_cases with
      same | ⟨before, b, after, shape, some, allEmpty, hasValue, first, next⟩
    · rw [same]
    · rw [first, next]
      by_contra differs
      exact clear ⟨query, before, b, after, asked, shape, some, allEmpty, hasValue, differs⟩

/-- Where an empty attribute is found in place of one with a value, the value is found without it. -/
theorem Field.Masked.fromAttribute_ne {f : Field} {attributes : List Attribute}
    (masked : f.Masked attributes) :
    f.fromAttribute (attributes.filter (·.value != "")) ≠ f.fromAttribute attributes := by
  obtain ⟨query, before, b, after, asked, shape, some, allEmpty, hasValue, differs⟩ := masked
  have first : firstValue (before ++ b :: after) = "" := by
    cases before with
    | nil => exact absurd rfl some
    | cons a before => exact allEmpty a List.mem_cons_self
  have next : answering query f.key.xmlName (attributes.filter (·.value != "")) =
      b :: after.filter (·.value != "") := by
    have commuted : answering query f.key.xmlName (attributes.filter (·.value != "")) =
        (answering query f.key.xmlName attributes).filter (·.value != "") := by
      rw [answering, answering, List.filter_append, List.filter_filter, List.filter_filter,
        List.filter_filter, List.filter_filter]
      simp only [Bool.and_comm]
    have none : before.filter (·.value != "") = [] := by
      simpa [List.filter_eq_nil_iff] using allEmpty
    rw [commuted, shape, List.filter_append, none, List.filter_cons_of_pos (by simpa using hasValue),
      List.nil_append]
  rw [fromAttribute_eq, fromAttribute_eq, attributeValue_eq, attributeValue_eq, asked]
  simp only [Except.map, bind, Except.bind]
  rw [next, shape, first]
  exact differs

/-! ### Reading a pruned element -/

/-- Where an empty attribute of the element itself is found in place of one with a value, leaving out
the empty ones gives another outcome. -/
theorem RecordType.exists_pruned_of_masked {type : RecordType} (sound : Field.Sound type.fields)
    {tag : StartTag} {children : List Node} {f : Field} (member : f ∈ type.fields)
    (isAttribute : f.key.isAttribute = true) (masked : f.Masked tag.attributes) {v : Value}
    (read : type.fromNode (.element tag children) = .ok v) :
    ∃ node, (Node.element tag children).Pruned node ∧ type.fromNode node ≠ .ok v := by
  have untouched : List.Forall₂ Node.Pruned children children :=
    List.forall₂_same.mpr fun child _ => .same child
  refine ⟨.element ⟨tag.space, tag.name, tag.attributes.filter (·.value != "")⟩ children,
    .element (.all tag.attributes) untouched, fun again => masked.fromAttribute_ne ?_⟩
  obtain ⟨_, _, values, rfl, held⟩ := (fromNode_eq_ok_iff sound _ _ _).mp read
  obtain ⟨_, _, values', same, held'⟩ := (fromNode_eq_ok_iff sound _ _ _).mp again
  obtain ⟨-, rfl⟩ := Value.record.inj same
  obtain ⟨length, held⟩ := List.forall₂_iff_zip.mp held
  obtain ⟨w, paired⟩ := exists_mem_zip length member
  have holds := (sound.fromAttribute_eq_ok_iff member isAttribute tag children w).mpr (held paired)
  have holds' := (sound.fromAttribute_eq_ok_iff member isAttribute _ children w).mpr
    ((List.forall₂_iff_zip.mp held').2 paired)
  exact holds'.trans holds.symm

namespace BoundSchema

/-- What reading gives, a record or a fault, does not depend on empty attributes, unless one is found in
place of another that has a value. Where such are on the element itself and it can be read, leaving
out empty attributes does matter. -/
theorem fromNode_of_pruned {s : Schema} {b : BoundSchema} (bound : bind s = .ok b)
    {label : Schema.Label} {type : RecordType} (member : (label, type) ∈ b.records) {node : Node} :
    (¬ type.Masks node →
      ∀ node', node.Pruned node' → type.fromNode node' = type.fromNode node) ∧
    ∀ tag children f v, node = .element tag children → f ∈ type.fields →
      f.key.isAttribute = true → f.Masked tag.attributes → type.fromNode node = .ok v →
      ∃ node', node.Pruned node' ∧ type.fromNode node' ≠ .ok v := by
  have sound := sound_of_bind bound _ member
  constructor
  · intro clear node' pruned
    refine RecordType.fromNode_eq_of_retagged ?_ sound clear pruned
    exact fun f attributes rest stripped unmasked => fromAttribute_of_stripped stripped unmasked
  · rintro tag children f v rfl belongs isAttribute masked read
    exact RecordType.exists_pruned_of_masked sound.fields belongs isAttribute masked read

theorem fromNode_of_pruned_shelf :
    shelfType.fromNode (.element ⟨"", "shelf", [⟨"", "label", "A"⟩]⟩
        [.element ⟨"", "book", []⟩ []]) =
      shelfType.fromNode (.element ⟨"", "shelf", [⟨"", "widths", ""⟩, ⟨"", "label", "A"⟩]⟩
        [.element ⟨"", "book", [⟨"", "kind", ""⟩]⟩ []]) := by
  let book : Node := .element ⟨"", "book", [⟨"", "kind", ""⟩]⟩ []
  let book' : Node := .element ⟨"", "book", []⟩ []
  have clear : ¬ shelfType.Masks (.element ⟨"", "shelf", [⟨"", "widths", ""⟩,
      ⟨"", "label", "A"⟩]⟩ [book]) := by
    intro masks
    cases masks with
    | value _ _ masked => exact Field.not_masked_of_distinct (by simp) (by simp) masked
    | nested _ _ _ _ present below =>
      obtain ⟨rfl, rfl⟩ := Node.element.inj (List.mem_singleton.mp present)
      cases below with
      | value _ _ masked => exact Field.not_masked_of_distinct (by simp) (by simp) masked
      | nested _ _ _ _ none _ => cases none
  have pruned : book.Pruned book' := .element (.leave rfl .nil) .nil
  exact (fromNode_of_pruned bind_shelfSchema shelfType_mem).1 clear _
    (.element (.leave rfl (.keep _ .nil)) (.cons pruned .nil))

/-- An empty attribute `x` without a namespace is found in place of one in a namespace. -/
theorem fromNode_masked :
    Schema.load (soleDefinition "x") (.text "sole") = .ok (soleSchema "x") ∧
      bind (soleSchema "x") = .ok (soleBound "x") ∧
      (.text "Sole", soleType "x") ∈ (soleBound "x").records ∧
      (Node.element ⟨"", "sole", [⟨"", "x", ""⟩, ⟨"u", "x", "1"⟩]⟩ []).AttributesApart ∧
      (Node.element ⟨"", "sole", [⟨"", "x", ""⟩, ⟨"u", "x", "1"⟩]⟩ []).Pruned
        (.element ⟨"", "sole", [⟨"u", "x", "1"⟩]⟩ []) ∧
      (soleType "x").fromNode (.element ⟨"", "sole", [⟨"", "x", ""⟩, ⟨"u", "x", "1"⟩]⟩ []) =
        .ok (.record (soleType "x").layout [.text ""]) ∧
      (soleType "x").fromNode (.element ⟨"", "sole", [⟨"u", "x", "1"⟩]⟩ []) =
        .ok (.record (soleType "x").layout [.text "1"]) := by
  refine ⟨rfl, rfl, by simp [soleBound], ?_, ?_, rfl, rfl⟩
  · exact .element (by simp) (by simp)
  · exact .element (.leave rfl (.keep _ .nil)) .nil

end BoundSchema

end XmlRecords
