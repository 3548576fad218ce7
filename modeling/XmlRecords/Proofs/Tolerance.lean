import Mathlib.Logic.Relation
import XmlRecords.Proofs.Binding
import XmlRecords.Proofs.Reading
import XmlRecords.Proofs.Runs

/-!
What a document may hold besides what its schema declares. Comments, instructions, attributes and
elements that a record type does not declare change nothing, wherever they are put.
-/

set_option autoImplicit false
set_option relaxedAutoImplicit false

namespace XmlRecords

open Xml

namespace Xml

/-- The name by which an attribute is looked up within its namespace. -/
def Attribute.expandedName (a : Attribute) : String := "\x7b" ++ a.space ++ "\x7d" ++ a.name

namespace Node

def isText : Node → Bool
  | .text _ => true
  | _ => false

def isRemark : Node → Bool
  | .comment _ => true
  | .instruction .. => true
  | _ => false

/-- Siblings with a node put among them, between two of them or inside a text. -/
inductive Interposed (node : Node) : List Node → List Node → Prop
  | between (before after : List Node) :
      Interposed node (before ++ after) (before ++ node :: after)
  | amid (before after : List Node) (s t : String) :
      Interposed node (before ++ .text (s ++ t) :: after)
        (before ++ .text s :: node :: .text t :: after)

/-- An element with an attribute, or with a node that is no text, put anywhere inside it. -/
inductive Grown : Node → Node → Prop
  | value {space name : String} {before after : List Attribute} {children : List Node}
      (a : Attribute) :
      Grown (.element ⟨space, name, before ++ after⟩ children)
        (.element ⟨space, name, before ++ a :: after⟩ children)
  | child {tag : StartTag} {children grown : List Node} {node : Node} :
      node.isText = false → Interposed node children grown →
      Grown (.element tag children) (.element tag grown)
  | inside {tag : StartTag} {before after : List Node} {node grown : Node} :
      Grown node grown →
      Grown (.element tag (before ++ node :: after)) (.element tag (before ++ grown :: after))

end Node

end Xml

namespace RecordType

/-- An attribute is not declared, neither by its local name nor by its expanded name. -/
def Ignores (type : RecordType) (a : Attribute) : Prop :=
  ∀ f ∈ type.fields, f.key.isAttribute = true →
    f.key.xmlName ≠ a.name ∧ f.key.xmlName ≠ a.expandedName

def Undeclared (type : RecordType) (name : String) : Prop :=
  ∀ f ∈ type.fields, f.key.isAttribute = false → f.key.xmlName ≠ name

/-- An element with something put into it that its record type does not declare: at the element
itself, in a child that is read as a record, or anywhere in a child that is not. -/
inductive Tolerates : RecordType → Node → Node → Prop
  | remark {type : RecordType} {tag : StartTag} {children grown : List Node} {node : Node} :
      node.isRemark = true → Node.Interposed node children grown →
      Tolerates type (.element tag children) (.element tag grown)
  | value {type : RecordType} {space name : String} {before after : List Attribute}
      {children : List Node} {a : Attribute} :
      type.Ignores a →
      Tolerates type (.element ⟨space, name, before ++ after⟩ children)
        (.element ⟨space, name, before ++ a :: after⟩ children)
  | element {type : RecordType} {tag : StartTag} {children grown : List Node} {t : StartTag}
      {content : List Node} :
      type.Undeclared t.name → Node.Interposed (.element t content) children grown →
      Tolerates type (.element tag children) (.element tag grown)
  | inUndeclared {type : RecordType} {tag : StartTag} {before after : List Node} {t : StartTag}
      {content : List Node} {grown : Node} :
      type.Undeclared t.name → Node.Grown (.element t content) grown →
      Tolerates type (.element tag (before ++ .element t content :: after))
        (.element tag (before ++ grown :: after))
  | inText {type : RecordType} {tag : StartTag} {before after : List Node} {t : StartTag}
      {content : List Node} {grown : Node} {f : Field} {codec : Codec} :
      f ∈ type.fields → f.key.isAttribute = false → f.key.xmlName = t.name →
      f.codec? = some codec → Node.Grown (.element t content) grown →
      Tolerates type (.element tag (before ++ .element t content :: after))
        (.element tag (before ++ grown :: after))
  | inRecord {type : RecordType} {tag : StartTag} {before after : List Node} {t : StartTag}
      {content : List Node} {grown : Node} {f : Field} {inner : RecordType} :
      f ∈ type.fields → f.key.isAttribute = false → f.key.xmlName = t.name →
      f.type? = some inner → Tolerates inner (.element t content) grown →
      Tolerates type (.element tag (before ++ .element t content :: after))
        (.element tag (before ++ grown :: after))

end RecordType

/-! ### Texts and children -/

namespace Xml.Node

theorem directText_append (xs ys : List Node) :
    directText (xs ++ ys) = directText xs ++ directText ys := by
  induction xs with
  | nil => simp [directText]
  | cons x xs ih =>
    cases x with
    | text s => simp only [List.cons_append, directText, ih, String.append_assoc]
    | element tag children => simpa only [List.cons_append, directText] using ih
    | comment s => simpa only [List.cons_append, directText] using ih
    | instruction target data => simpa only [List.cons_append, directText] using ih

theorem directText_cons_of_not_text {node : Node} (noText : node.isText = false)
    (nodes : List Node) : directText (node :: nodes) = directText nodes := by
  cases node with
  | text s => cases noText
  | element tag children => rfl
  | comment s => rfl
  | instruction target data => rfl

theorem Interposed.directText_eq {node : Node} (noText : node.isText = false)
    {children grown : List Node} (interposed : Interposed node children grown) :
    directText grown = directText children := by
  cases interposed with
  | between before after =>
    rw [directText_append, directText_append, directText_cons_of_not_text noText]
  | amid before after s t =>
    have split : directText (.text s :: node :: .text t :: after) =
        directText (.text (s ++ t) :: after) := by
      rw [directText, directText_cons_of_not_text noText, directText, directText,
        String.append_assoc]
    rw [directText_append, directText_append, split]

theorem Grown.name_and_text {tag : StartTag} {children : List Node} {grown : Node}
    (grows : Grown (.element tag children) grown) :
    ∃ tag' children', grown = .element tag' children' ∧ tag'.name = tag.name ∧
      directText children' = directText children := by
  cases grows with
  | value a => exact ⟨_, _, rfl, rfl, rfl⟩
  | child noText interposed => exact ⟨_, _, rfl, rfl, interposed.directText_eq noText⟩
  | @inside _ before after node grown below =>
    refine ⟨_, _, rfl, rfl, ?_⟩
    have element : node.isText = false ∧ grown.isText = false := by
      cases below <;> exact ⟨rfl, rfl⟩
    rw [directText_append, directText_append, directText_cons_of_not_text element.1,
      directText_cons_of_not_text element.2]

theorem elementsOf_append (xs ys : List Node) :
    elementsOf (xs ++ ys) = elementsOf xs ++ elementsOf ys := by
  induction xs with
  | nil => rfl
  | cons x xs ih =>
    cases x with
    | element tag children => simp only [List.cons_append, elementsOf, ih]
    | text s => simpa only [List.cons_append, elementsOf] using ih
    | comment s => simpa only [List.cons_append, elementsOf] using ih
    | instruction target data => simpa only [List.cons_append, elementsOf] using ih

end Xml.Node

/-! ### What reading makes of them -/

theorem declaredChildren_append (fields : List Field) (xs ys : List Node) :
    declaredChildren fields (xs ++ ys) =
      declaredChildren fields xs ++ declaredChildren fields ys := by
  simp only [declaredChildren, Node.elementsOf_append, List.filterMap_append]

theorem declaredChildren_cons (fields : List Field) (node : Node) (nodes : List Node) :
    declaredChildren fields (node :: nodes) =
      declaredChildren fields [node] ++ declaredChildren fields nodes :=
  declaredChildren_append fields [node] nodes

theorem itemsOf_eq_of_interposed {fields : List Field} {node : Node}
    (silent : declaredChildren fields [node] = []) {children grown : List Node}
    (interposed : Node.Interposed node children grown) :
    itemsOf fields grown = itemsOf fields children := by
  rw [itemsOf_eq_mapM, itemsOf_eq_mapM]
  cases interposed with
  | between before after =>
    rw [declaredChildren_append, declaredChildren_cons, silent, declaredChildren_append,
      List.nil_append]
  | amid before after s t =>
    have split : declaredChildren fields (.text s :: node :: .text t :: after) =
        declaredChildren fields (.text (s ++ t) :: after) := by
      rw [declaredChildren_cons, declaredChildren_cons fields node, silent]
      rfl
    rw [declaredChildren_append, declaredChildren_append, split]

theorem itemOf_congr {fields : List Field} {t t' : StartTag} {content content' : List Node}
    (named : t'.name = t.name)
    (same : ∀ f, Field.forElement? fields t.name = some f →
      f.readChild (t', content') = f.readChild (t, content)) :
    itemOf fields (.element t' content') = itemOf fields (.element t content) := by
  rw [itemOf_element, itemOf_element, named]
  cases found : Field.forElement? fields t.name with
  | none => rfl
  | some f => simp only [same f found]

theorem itemsOf_eq_of_replaced {fields : List Field} {t t' : StartTag}
    {content content' : List Node} (named : t'.name = t.name)
    (same : ∀ f, Field.forElement? fields t.name = some f →
      f.readChild (t', content') = f.readChild (t, content))
    (before after : List Node) :
    itemsOf fields (before ++ .element t' content' :: after) =
      itemsOf fields (before ++ .element t content :: after) := by
  induction before with
  | nil => simp only [List.nil_append, itemsOf, itemOf_congr named same]
  | cons node before ih => simp only [List.cons_append, itemsOf, ih]

theorem attributeQuery_eq_ok {name space localName : String}
    (asked : attributeQuery name = .ok (space, localName)) :
    name = localName ∨ name = "\x7b" ++ space ++ "\x7d" ++ localName := by
  unfold attributeQuery at asked
  split at asked
  · cases asked
  · split at asked
    · cases asked
    · rename_i rest shape
      simp only [drop_length_takeWhile] at asked
      split at asked
      · cases asked
      · cases asked
      · rename_i mark tail _ remaining
        obtain ⟨rfl, rfl⟩ := Prod.mk.inj (Except.ok.inj asked)
        have isMark : mark = '\x7d' := by simpa using not_of_dropWhile_eq_cons remaining
        subst isMark
        have divided : name.toList = '\x7b' :: (rest.takeWhile (· != '\x7d') ++ '\x7d' :: tail) := by
          rw [shape, ← remaining, List.takeWhile_append_dropWhile]
        right
        apply String.toList_injective
        rw [divided]
        simp
    · obtain ⟨_, rfl⟩ := Prod.mk.inj (Except.ok.inj asked)
      exact .inl String.ofList_toList.symm

theorem attributeValue_insert {name : String} {a : Attribute} (plain : name ≠ a.name)
    (expanded : name ≠ a.expandedName) (before after : List Attribute) :
    attributeValue (before ++ a :: after) name = attributeValue (before ++ after) name := by
  unfold attributeValue
  cases asked : attributeQuery name with
  | error fault => rfl
  | ok query =>
    obtain ⟨space, localName⟩ := query
    have notAsked : (a.space == space && a.name == localName) = false := by
      rw [Bool.and_eq_false_iff, beq_eq_false_iff_ne, beq_eq_false_iff_ne, ← not_and_or]
      rintro ⟨rfl, rfl⟩
      rcases attributeQuery_eq_ok asked with same | same
      · exact plain same
      · exact expanded same
    have notNamed : (a.space != "" && a.name == name) = false := by
      rw [Bool.and_eq_false_iff, beq_eq_false_iff_ne]
      exact .inr plain.symm
    have without (q : Attribute → Bool) (h : q a = false) :
        (before ++ a :: after).find? q = (before ++ after).find? q := by
      rw [List.find?_append, List.find?_append, List.find?_cons_of_neg (by simp [h])]
    simp only [bind, Except.bind]
    rw [without _ notAsked, without _ notNamed]

theorem attributeValues_insert {type : RecordType} {a : Attribute} (ignored : type.Ignores a)
    (before after : List Attribute) :
    attributeValues type.fields (before ++ a :: after) =
      attributeValues type.fields (before ++ after) := by
  unfold attributeValues
  apply mapM_congr_mem
  intro f member
  obtain ⟨belongs, isAttribute⟩ := List.mem_filter.mp member
  obtain ⟨plain, expanded⟩ := ignored f belongs isAttribute
  simp only [Field.fromAttribute, attributeValue_insert plain expanded]

theorem forElement?_eq_none {type : RecordType} {name : String} (undeclared : type.Undeclared name) :
    Field.forElement? type.fields name = none := by
  rw [Field.forElement?, List.find?_eq_none]
  intro f member
  cases isAttribute : f.key.isAttribute with
  | true => simp
  | false => simpa using undeclared f (List.mem_reverse.mp member) isAttribute

theorem declaredChildren_of_undeclared {type : RecordType} {t : StartTag}
    (undeclared : type.Undeclared t.name) (content : List Node) :
    declaredChildren type.fields [.element t content] = [] := by
  simp [declaredChildren, Node.elementsOf, forElement?_eq_none undeclared]

theorem declaredChildren_of_remark (fields : List Field) {node : Node}
    (remark : node.isRemark = true) : declaredChildren fields [node] = [] := by
  cases node with
  | text s => cases remark
  | element tag children => cases remark
  | comment s => rfl
  | instruction target data => rfl

theorem fromNode_congr {type : RecordType} {tag tag' : StartTag} {children children' : List Node}
    (attributes : attributeValues type.fields tag'.attributes =
      attributeValues type.fields tag.attributes)
    (items : itemsOf type.fields children' = itemsOf type.fields children) :
    type.fromNode (.element tag' children') = type.fromNode (.element tag children) := by
  simp only [RecordType.fromNode, attributes, items]

theorem RecordType.Tolerates.name {type : RecordType} {tag : StartTag} {children : List Node}
    {grown : Node} (tolerates : type.Tolerates (.element tag children) grown) :
    ∃ tag' children', grown = .element tag' children' ∧ tag'.name = tag.name := by
  cases tolerates <;> exact ⟨_, _, rfl, rfl⟩

/-- What an element read as a record may hold besides changes nothing, be it read or refused. -/
theorem RecordType.Tolerates.fromNode_eq {type : RecordType} {node grown : Node}
    (sound : type.Throughout Field.Sound) (tolerates : type.Tolerates node grown) :
    type.fromNode grown = type.fromNode node := by
  induction tolerates with
  | remark isRemark interposed =>
    exact fromNode_congr rfl
      (itemsOf_eq_of_interposed (declaredChildren_of_remark _ isRemark) interposed)
  | value ignored => exact fromNode_congr (attributeValues_insert ignored _ _) rfl
  | element undeclared interposed =>
    exact fromNode_congr rfl
      (itemsOf_eq_of_interposed (declaredChildren_of_undeclared undeclared _) interposed)
  | inUndeclared undeclared grows =>
    obtain ⟨t', content', rfl, named, _⟩ := grows.name_and_text
    refine fromNode_congr rfl (itemsOf_eq_of_replaced named ?_ _ _)
    intro g found
    rw [forElement?_eq_none undeclared] at found
    cases found
  | @inText _ _ _ _ t content _ f codec member element named simple grows =>
    obtain ⟨t', content', rfl, renamed, sameText⟩ := grows.name_and_text
    refine fromNode_congr rfl (itemsOf_eq_of_replaced renamed ?_ _ _)
    intro g found
    rw [(sound.fields.forElement?_eq_some_iff _).mpr ⟨member, element, named⟩] at found
    obtain rfl := Option.some.inj found
    cases f with
    | simple key codec' default => simp only [Field.readChild, sameText]
    | nested key inner default => cases simple
  | @inRecord _ _ _ _ t content _ f inner member element named nested tolerates ih =>
    obtain ⟨t', content', rfl, renamed⟩ := tolerates.name
    refine fromNode_congr rfl (itemsOf_eq_of_replaced renamed ?_ _ _)
    intro g found
    rw [(sound.fields.forElement?_eq_some_iff _).mpr ⟨member, element, named⟩] at found
    obtain rfl := Option.some.inj found
    cases f with
    | simple key codec default => cases nested
    | nested key inner' default =>
      obtain rfl := Option.some.inj nested
      exact ih (sound.inner member rfl)

namespace BoundSchema

/-- What reading gives, a record or a fault, stays the same however much is put into an element that
the record types do not declare. -/
theorem fromNode_of_tolerated {s : Schema} {b : BoundSchema} (bound : bind s = .ok b)
    {label : Schema.Label} {type : RecordType} (member : (label, type) ∈ b.records)
    {node grown : Node} (grows : Relation.ReflTransGen type.Tolerates node grown) :
    type.fromNode grown = type.fromNode node := by
  have sound := sound_of_bind bound _ member
  induction grows with
  | refl => rfl
  | tail _ tolerates ih => rw [tolerates.fromNode_eq sound, ih]

theorem fromNode_of_tolerated_shelf :
    shelfType.fromNode (.element ⟨"", "shelf", [⟨"", "label", "A"⟩, ⟨"", "lang", "en"⟩]⟩
      [.element ⟨"", "note", []⟩ [.text "so", .comment "!", .text "up"],
        .element ⟨"", "lamp", []⟩ []]) =
      shelfType.fromNode (.element ⟨"", "shelf", [⟨"", "label", "A"⟩]⟩
        [.element ⟨"", "note", []⟩ [.text "soup"]]) := by
  let label : Attribute := ⟨"", "label", "A"⟩
  let lang : Attribute := ⟨"", "lang", "en"⟩
  let note : Node := .element ⟨"", "note", []⟩ [.text ("so" ++ "up")]
  let noted : Node := .element ⟨"", "note", []⟩ [.text "so", .comment "!", .text "up"]
  let lamp : Node := .element ⟨"", "lamp", []⟩ []
  have ignored : shelfType.Ignores lang := by
    simp [RecordType.Ignores, shelfType, RecordType.fields, Field.key, lang,
      Attribute.expandedName]
  have undeclared : shelfType.Undeclared "lamp" := by
    simp [RecordType.Undeclared, shelfType, RecordType.fields, Field.key]
  have remarked : note.Grown noted := .child rfl (.amid [] [] "so" "up")
  have first : shelfType.Tolerates (.element ⟨"", "shelf", [label] ++ []⟩ [note])
      (.element ⟨"", "shelf", [label] ++ lang :: []⟩ [note]) := .value ignored
  have second : shelfType.Tolerates (.element ⟨"", "shelf", [label, lang]⟩ ([note] ++ []))
      (.element ⟨"", "shelf", [label, lang]⟩ ([note] ++ lamp :: [])) :=
    .element undeclared (.between [note] [])
  have third : shelfType.Tolerates (.element ⟨"", "shelf", [label, lang]⟩ ([] ++ note :: [lamp]))
      (.element ⟨"", "shelf", [label, lang]⟩ ([] ++ noted :: [lamp])) :=
    .inText (by simp [shelfType, RecordType.fields]; exact .inr (.inr (.inr rfl))) rfl rfl rfl
      remarked
  exact fromNode_of_tolerated bind_shelfSchema shelfType_mem
    (((Relation.ReflTransGen.single first).tail second).tail third)

/-- An attribute declared by its expanded name is found, although its local name is not declared. -/
theorem fromNode_expanded :
    Schema.load (soleDefinition "\x7bu\x7dx") (.text "sole") = .ok (soleSchema "\x7bu\x7dx") ∧
      bind (soleSchema "\x7bu\x7dx") = .ok (soleBound "\x7bu\x7dx") ∧
      (.text "Sole", soleType "\x7bu\x7dx") ∈ (soleBound "\x7bu\x7dx").records ∧
      (∀ f ∈ (soleType "\x7bu\x7dx").fields, f.key.xmlName ≠ "x") ∧
      (soleType "\x7bu\x7dx").fromNode (.element ⟨"", "sole", [⟨"u", "x", "v"⟩]⟩ []) =
        .ok (.record (soleType "\x7bu\x7dx").layout [.text "v"]) ∧
      (soleType "\x7bu\x7dx").fromNode (.element ⟨"", "sole", []⟩ []) =
        .ok (.record (soleType "\x7bu\x7dx").layout [.text ""]) := by
  refine ⟨rfl, rfl, by simp [soleBound], ?_, rfl, rfl⟩
  simp [soleType, RecordType.fields, Field.key]

end BoundSchema

end XmlRecords
