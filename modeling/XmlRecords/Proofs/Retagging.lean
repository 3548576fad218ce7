import XmlRecords.Proofs.Tolerance

/-!
Trees that differ only in the attributes of their elements. If attribute fields read the same from the
attributes of both, wherever an element is read as a record, both trees read the same.
-/

set_option autoImplicit false
set_option relaxedAutoImplicit false

namespace XmlRecords

open Xml

/-- A tree with the attributes of its elements replaced by such as a relation allows. -/
inductive Xml.Node.Retagged (R : List Attribute → List Attribute → Prop) : Node → Node → Prop
  | same (node : Node) : Retagged R node node
  | element {space name : String} {attributes attributes' : List Attribute}
      {children children' : List Node} :
      R attributes attributes' → List.Forall₂ (Retagged R) children children' →
      Retagged R (.element ⟨space, name, attributes⟩ children)
        (.element ⟨space, name, attributes'⟩ children')

/-- An attribute field and the attributes of an element are so related, at an element read as a record
or below it. -/
inductive RecordType.Meets (P : Field → List Attribute → Prop) : RecordType → Node → Prop
  | value {type : RecordType} {tag : StartTag} {children : List Node} {f : Field} :
      f ∈ type.fields → f.key.isAttribute = true → P f tag.attributes →
      Meets P type (.element tag children)
  | nested {type inner : RecordType} {tag t : StartTag} {children content : List Node} {f : Field} :
      f ∈ type.fields → f.key.isAttribute = false → f.key.xmlName = t.name →
      f.type? = some inner → .element t content ∈ children → Meets P inner (.element t content) →
      Meets P type (.element tag children)

variable {R : List Attribute → List Attribute → Prop} {P : Field → List Attribute → Prop}

theorem Xml.Node.Retagged.directText_eq {children children' : List Node}
    (retagged : List.Forall₂ (Retagged R) children children') :
    Node.directText children' = Node.directText children := by
  induction retagged with
  | nil => rfl
  | @cons node _ _ _ head _ ih =>
    cases head with
    | same =>
      cases node with
      | text s => rw [Node.directText, Node.directText, ih]
      | element tag content => simpa only [Node.directText] using ih
      | comment s => simpa only [Node.directText] using ih
      | instruction target data => simpa only [Node.directText] using ih
    | element related below => simpa only [Node.directText] using ih

theorem itemsOf_congr {fields : List Field} {children children' : List Node}
    (same : List.Forall₂ (fun node node' => itemOf fields node' = itemOf fields node)
      children children') : itemsOf fields children' = itemsOf fields children := by
  induction same with
  | nil => rfl
  | cons head _ ih => rw [itemsOf, itemsOf, head, ih]

/-- Elements read the same, be it as a record or a fault, if attribute fields read the same from the
attributes of both except where they meet `P`, and none does. -/
theorem RecordType.fromNode_eq_of_retagged
    (agree : ∀ (f : Field) attributes attributes', R attributes attributes' → ¬ P f attributes →
      f.fromAttribute attributes' = f.fromAttribute attributes)
    {type : RecordType} (sound : type.Throughout Field.Sound) {node node' : Node}
    (clear : ¬ type.Meets P node) (retagged : node.Retagged R node') :
    type.fromNode node' = type.fromNode node := by
  induction sound generalizing node node' with
  | @mk className name fields sound _ ih =>
    cases retagged with
    | same => rfl
    | @element space localName attributes attributes' children children' related below =>
      refine fromNode_congr ?_ (itemsOf_congr ?_)
      · apply mapM_congr_mem
        intro f member
        obtain ⟨belongs, isAttribute⟩ := List.mem_filter.mp member
        have apart : ¬ P f attributes := fun meets => clear (.value belongs isAttribute meets)
        rw [agree f attributes attributes' related apart]
      · refine forall₂_imp_mem below fun child present child' retagged => ?_
        cases retagged with
        | same => rfl
        | @element space t inner inner' content content' related below =>
          refine itemOf_congr rfl fun f found => ?_
          obtain ⟨belongs, element, named⟩ := (sound.forElement?_eq_some_iff t).mp found
          cases f with
          | simple key codec default =>
            simp only [Field.readChild, Node.Retagged.directText_eq below]
          | nested key type default =>
            have clear' : ¬ type.Meets P (.element ⟨space, t, inner⟩ content) :=
              fun meets => clear (.nested belongs element named rfl present meets)
            exact ih _ belongs type rfl clear' (.element related below)

end XmlRecords
