import Mathlib.Data.List.Perm.Basic
import XmlRecords.Proofs.Retagging

/-!
The order of attributes. It does not matter which attribute of an element comes first, except where
several attributes of one local name stand in namespaces and none without: then the first is taken.
-/

set_option autoImplicit false
set_option relaxedAutoImplicit false

namespace XmlRecords

open Xml

namespace Xml.Node

/-- No element of a tree has two attributes of one namespace and local name. -/
inductive AttributesApart : Node → Prop
  | element {tag : StartTag} {children : List Node} :
      (tag.attributes.map fun a => (a.space, a.name)).Nodup →
      (∀ child ∈ children, AttributesApart child) → AttributesApart (.element tag children)
  | text (s : String) : AttributesApart (.text s)
  | comment (s : String) : AttributesApart (.comment s)
  | instruction (target data : String) : AttributesApart (.instruction target data)

/-- A tree with the attributes of its elements in other orders. -/
inductive Shuffled : Node → Node → Prop
  | same (node : Node) : Shuffled node node
  | element {space name : String} {attributes attributes' : List Attribute}
      {children children' : List Node} :
      attributes.Perm attributes' → List.Forall₂ Shuffled children children' →
      Shuffled (.element ⟨space, name, attributes⟩ children)
        (.element ⟨space, name, attributes'⟩ children')

end Xml.Node

/-- What an attribute field holds if its attribute has a value, empty for none. -/
def Field.reading (f : Field) (raw : String) : Except Fault Value :=
  if raw = "" then f.initial
  else
    match f.codec? with
    | some codec => ofCodec (codec.read raw)
    | none => .error .noSuchMember

/-- Attributes in namespaces compete for a field and read differently, and none is the one asked
for. -/
def Field.Torn (f : Field) (attributes : List Attribute) : Prop :=
  (∀ a ∈ attributes, attributeQuery f.key.xmlName ≠ .ok (a.space, a.name)) ∧
  ∃ a ∈ attributes, ∃ b ∈ attributes,
    (a.space ≠ "" ∧ a.name = f.key.xmlName) ∧ (b.space ≠ "" ∧ b.name = f.key.xmlName) ∧
      f.reading a.value ≠ f.reading b.value

/-- Attributes compete for a field at an element read as a record, or below it. -/
inductive RecordType.Ambiguous : RecordType → Node → Prop
  | value {type : RecordType} {tag : StartTag} {children : List Node} {f : Field} :
      f ∈ type.fields → f.key.isAttribute = true → f.Torn tag.attributes →
      Ambiguous type (.element tag children)
  | nested {type inner : RecordType} {tag t : StartTag} {children content : List Node} {f : Field} :
      f ∈ type.fields → f.key.isAttribute = false → f.key.xmlName = t.name →
      f.type? = some inner → .element t content ∈ children → Ambiguous inner (.element t content) →
      Ambiguous type (.element tag children)

theorem Field.not_torn_of_distinct {f : Field} {attributes : List Attribute}
    (distinct : (attributes.map (·.name)).Nodup) : ¬ f.Torn attributes := by
  rintro ⟨_, a, hasA, b, hasB, ⟨_, nameA⟩, ⟨_, nameB⟩, differ⟩
  have same := List.inj_on_of_nodup_map distinct hasA hasB (nameA.trans nameB.symm)
  exact differ (by rw [same])

/-! ### Looking up an attribute -/

theorem exists_find?_of_perm {α : Type} {p : α → Bool} {xs ys : List α} (perm : xs.Perm ys) {a : α}
    (found : xs.find? p = some a) : ∃ b ∈ xs, p b = true ∧ ys.find? p = some b := by
  have satisfied := List.find?_some found
  have member := perm.mem_iff.mp (List.mem_of_find?_eq_some found)
  obtain ⟨b, found'⟩ := Option.isSome_iff_exists.mp (List.find?_isSome.mpr ⟨a, member, satisfied⟩)
  have member' := perm.mem_iff.mpr (List.mem_of_find?_eq_some found')
  exact ⟨b, member', List.find?_some found', found'⟩

theorem find?_eq_none_of_perm {α : Type} {p : α → Bool} {xs ys : List α} (perm : xs.Perm ys)
    (absent : xs.find? p = none) : ys.find? p = none := by
  rw [List.find?_eq_none] at absent ⊢
  intro b member
  exact absent b (perm.mem_iff.mpr member)

theorem fromAttribute_eq (f : Field) (attributes : List Attribute) :
    f.fromAttribute attributes = attributeValue attributes f.key.xmlName >>= f.reading := rfl

/-- An attribute field reads the same from attributes in any order, unless some compete for it. -/
theorem fromAttribute_of_perm {f : Field} {attributes attributes' : List Attribute}
    (perm : attributes.Perm attributes')
    (apart : (attributes.map fun a => (a.space, a.name)).Nodup) (whole : ¬ f.Torn attributes) :
    f.fromAttribute attributes' = f.fromAttribute attributes := by
  rw [fromAttribute_eq, fromAttribute_eq]
  unfold attributeValue
  cases asked : attributeQuery f.key.xmlName with
  | error fault => rfl
  | ok query =>
    obtain ⟨space, localName⟩ := query
    simp only [bind, Except.bind]
    cases exact : attributes.find? fun a => a.space == space && a.name == localName with
    | some a =>
      obtain ⟨b, member, same, found⟩ := exists_find?_of_perm perm exact
      have satisfied := List.find?_some exact
      simp only [Bool.and_eq_true, beq_iff_eq] at same satisfied
      -- attributes of one namespace and local name are the same
      have equal : b = a := List.inj_on_of_nodup_map apart member (List.mem_of_find?_eq_some exact)
        (Prod.ext (same.1.trans satisfied.1.symm) (same.2.trans satisfied.2.symm))
      rw [found, equal]
    | none =>
      rw [find?_eq_none_of_perm perm exact]
      cases first : attributes.find? fun a => a.space != "" && a.name == f.key.xmlName with
      | none => rw [find?_eq_none_of_perm perm first]
      | some a =>
        obtain ⟨b, member, competes, found⟩ := exists_find?_of_perm perm first
        have satisfied := List.find?_some first
        simp only [Bool.and_eq_true, bne_iff_ne, beq_iff_eq] at competes satisfied
        rw [found]
        by_contra differs
        apply whole
        refine ⟨?_, a, List.mem_of_find?_eq_some first, b, member, satisfied, competes, ?_⟩
        · intro c present same
          have absent := List.find?_eq_none.mp exact c present
          rw [asked, Except.ok.injEq, Prod.mk.injEq] at same
          simp [same.1, same.2] at absent
        · exact fun same => differs same.symm

theorem fromAttribute_of_competing {f : Field} {a : Attribute} {attributes : List Attribute}
    {query : String × String} (asked : attributeQuery f.key.xmlName = .ok query)
    (others : ∀ b ∈ a :: attributes, attributeQuery f.key.xmlName ≠ .ok (b.space, b.name))
    (competes : a.space ≠ "" ∧ a.name = f.key.xmlName) :
    f.fromAttribute (a :: attributes) = f.reading a.value := by
  obtain ⟨space, localName⟩ := query
  have exact : (a :: attributes).find? (fun b => b.space == space && b.name == localName) = none := by
    rw [List.find?_eq_none]
    intro b member same
    rw [Bool.and_eq_true, beq_iff_eq, beq_iff_eq] at same
    exact others b member (by rw [asked, same.1, same.2])
  rw [fromAttribute_eq]
  unfold attributeValue
  simp only [asked, bind, Except.bind, exact]
  rw [List.find?_cons_of_pos (by simp [competes.1, competes.2])]
  rfl

/-! ### Reading a shuffled element -/

theorem Xml.Node.Shuffled.retagged {node node' : Node} (shuffled : node.Shuffled node') :
    node.Retagged List.Perm node' :=
  -- children are shuffled in a list, hence the second induction hypothesis is about lists
  shuffled.rec (motive_1 := fun node node' _ => node.Retagged List.Perm node')
    (motive_2 := fun children children' _ =>
      List.Forall₂ (Node.Retagged List.Perm) children children')
    .same (fun perm _ below => .element perm below) .nil fun _ _ head tail => .cons head tail

/-- Where no element has two attributes of one namespace and local name, attributes compete wherever a
field may depend on their order. -/
theorem RecordType.ambiguous_of_meets {type : RecordType} {node : Node}
    (meets : type.Meets (fun f attributes =>
      ¬ (attributes.map fun a => (a.space, a.name)).Nodup ∨ f.Torn attributes) node)
    (apart : node.AttributesApart) : type.Ambiguous node := by
  induction meets with
  | value belongs isAttribute depends =>
    obtain ⟨distinct, _⟩ := apart
    exact .value belongs isAttribute (depends.resolve_left (not_not_intro distinct))
  | nested belongs element named typed present _ ih =>
    obtain ⟨_, apart⟩ := apart
    exact .nested belongs element named typed present (ih (apart _ present))

/-- The outcome of reading an element, a record or a fault, does not depend on the order of
attributes, unless some compete for a field. -/
theorem RecordType.fromNode_eq_of_shuffled {type : RecordType} (sound : type.Throughout Field.Sound)
    {node node' : Node} (apart : node.AttributesApart) (clear : ¬ type.Ambiguous node)
    (shuffled : node.Shuffled node') : type.fromNode node' = type.fromNode node := by
  refine fromNode_eq_of_retagged ?_ sound (fun meets => clear (ambiguous_of_meets meets apart))
    shuffled.retagged
  intro f attributes attributes' perm settled
  rw [not_or, not_not] at settled
  exact fromAttribute_of_perm perm settled.1 settled.2

/-- Where attributes of the element itself compete, another order gives another outcome. -/
theorem RecordType.exists_shuffled_of_torn {type : RecordType} (sound : Field.Sound type.fields)
    {tag : StartTag} {children : List Node} {f : Field} (member : f ∈ type.fields)
    (isAttribute : f.key.isAttribute = true) (torn : f.Torn tag.attributes) {v : Value}
    (read : type.fromNode (.element tag children) = .ok v) :
    ∃ node, (Node.element tag children).Shuffled node ∧ type.fromNode node ≠ .ok v := by
  obtain ⟨others, a, hasA, b, hasB, competesA, competesB, differ⟩ := torn
  obtain ⟨_, _, values, rfl, held⟩ := (fromNode_eq_ok_iff sound _ _ _).mp read
  obtain ⟨length, held⟩ := List.forall₂_iff_zip.mp held
  obtain ⟨w, paired⟩ := exists_mem_zip length member
  have holds := (sound.fromAttribute_eq_ok_iff member isAttribute tag children w).mpr (held paired)
  obtain ⟨raw, found, _⟩ := bind_eq_ok_iff.mp holds
  obtain ⟨query, asked, _⟩ := bind_eq_ok_iff.mp found
  -- one of the two does not read as the value that the record holds
  obtain ⟨c, present, competes, other⟩ : ∃ c ∈ tag.attributes,
      (c.space ≠ "" ∧ c.name = f.key.xmlName) ∧ f.reading c.value ≠ .ok w := by
    by_cases first : f.reading a.value = .ok w
    · exact ⟨b, hasB, competesB, fun second => differ (first.trans second.symm)⟩
    · exact ⟨a, hasA, competesA, first⟩
  have perm := List.perm_cons_erase present
  have unshuffled : List.Forall₂ Node.Shuffled children children :=
    List.forall₂_same.mpr fun child _ => .same child
  refine ⟨.element ⟨tag.space, tag.name, c :: tag.attributes.erase c⟩ children,
    .element perm unshuffled, ?_⟩
  intro again
  obtain ⟨_, _, values', same, held'⟩ := (fromNode_eq_ok_iff sound _ _ _).mp again
  obtain ⟨-, rfl⟩ := Value.record.inj same
  have holds' := (sound.fromAttribute_eq_ok_iff member isAttribute _ children w).mpr
    ((List.forall₂_iff_zip.mp held').2 paired)
  rw [fromAttribute_of_competing asked (fun b hasB => others b (perm.mem_iff.mpr hasB)) competes]
    at holds'
  exact other holds'

namespace BoundSchema

/-- What reading gives, a record or a fault, does not depend on the order of attributes, unless some
in namespaces compete for a field. Where such are on the element itself and it can be read, the order
does matter. -/
theorem fromNode_of_shuffled {s : Schema} {b : BoundSchema} (bound : bind s = .ok b)
    {label : Schema.Label} {type : RecordType} (member : (label, type) ∈ b.records) {node : Node}
    (apart : node.AttributesApart) :
    (¬ type.Ambiguous node →
      ∀ node', node.Shuffled node' → type.fromNode node' = type.fromNode node) ∧
    ∀ tag children f v, node = .element tag children → f ∈ type.fields →
      f.key.isAttribute = true → f.Torn tag.attributes → type.fromNode node = .ok v →
      ∃ node', node.Shuffled node' ∧ type.fromNode node' ≠ .ok v := by
  have sound := sound_of_bind bound _ member
  constructor
  · exact fun clear node' => RecordType.fromNode_eq_of_shuffled sound apart clear
  · rintro tag children f v rfl belongs isAttribute torn read
    exact RecordType.exists_shuffled_of_torn sound.fields belongs isAttribute torn read

theorem fromNode_of_shuffled_shelf :
    shelfType.fromNode (.element ⟨"", "shelf", [⟨"v", "lang", "en"⟩, ⟨"u", "label", "A"⟩]⟩
        [.element ⟨"", "book", [⟨"u", "lang", "la"⟩, ⟨"u", "kind", "atlas"⟩]⟩ []]) =
      shelfType.fromNode (.element ⟨"", "shelf", [⟨"u", "label", "A"⟩, ⟨"v", "lang", "en"⟩]⟩
        [.element ⟨"", "book", [⟨"u", "kind", "atlas"⟩, ⟨"u", "lang", "la"⟩]⟩ []]) := by
  let book : Node := .element ⟨"", "book", [⟨"u", "kind", "atlas"⟩, ⟨"u", "lang", "la"⟩]⟩ []
  let book' : Node := .element ⟨"", "book", [⟨"u", "lang", "la"⟩, ⟨"u", "kind", "atlas"⟩]⟩ []
  have apart : (Node.element ⟨"", "shelf", [⟨"u", "label", "A"⟩, ⟨"v", "lang", "en"⟩]⟩
      [book]).AttributesApart := by
    refine .element (by simp) fun child present => ?_
    rw [List.mem_singleton.mp present]
    exact .element (by simp) (by simp)
  have clear : ¬ shelfType.Ambiguous (.element ⟨"", "shelf", [⟨"u", "label", "A"⟩,
      ⟨"v", "lang", "en"⟩]⟩ [book]) := by
    intro ambiguous
    cases ambiguous with
    | value _ _ torn => exact Field.not_torn_of_distinct (by simp) torn
    | nested _ _ _ _ present below =>
      obtain ⟨rfl, rfl⟩ := Node.element.inj (List.mem_singleton.mp present)
      cases below with
      | value _ _ torn => exact Field.not_torn_of_distinct (by simp) torn
      | nested _ _ _ _ none _ => cases none
  have shuffled : book.Shuffled book' := .element (.swap _ _ []) .nil
  exact (fromNode_of_shuffled bind_shelfSchema shelfType_mem apart).1 clear _
    (.element (.swap _ _ []) (.cons shuffled .nil))

/-- Two attributes of one local name compete for the field `x`: the first is taken. -/
theorem fromNode_competing :
    Schema.load (soleDefinition "x") (.text "sole") = .ok (soleSchema "x") ∧
      bind (soleSchema "x") = .ok (soleBound "x") ∧
      (.text "Sole", soleType "x") ∈ (soleBound "x").records ∧
      (Node.element ⟨"", "sole", [⟨"u", "x", "1"⟩, ⟨"v", "x", "2"⟩]⟩ []).AttributesApart ∧
      (Node.element ⟨"", "sole", [⟨"u", "x", "1"⟩, ⟨"v", "x", "2"⟩]⟩ []).Shuffled
        (.element ⟨"", "sole", [⟨"v", "x", "2"⟩, ⟨"u", "x", "1"⟩]⟩ []) ∧
      (soleType "x").fromNode (.element ⟨"", "sole", [⟨"u", "x", "1"⟩, ⟨"v", "x", "2"⟩]⟩ []) =
        .ok (.record (soleType "x").layout [.text "1"]) ∧
      (soleType "x").fromNode (.element ⟨"", "sole", [⟨"v", "x", "2"⟩, ⟨"u", "x", "1"⟩]⟩ []) =
        .ok (.record (soleType "x").layout [.text "2"]) := by
  refine ⟨rfl, rfl, by simp [soleBound], ?_, ?_, rfl, rfl⟩
  · exact .element (by simp) (by simp)
  · exact .element (.swap _ _ []) .nil

end BoundSchema

end XmlRecords
