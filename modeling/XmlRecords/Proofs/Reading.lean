import XmlRecords.Proofs.RecordShape

/-!
What reading an element gives, field by field, and when it fails. The laws speak of the children of
each name, not of the pass over all children that reading makes.
-/

set_option autoImplicit false
set_option relaxedAutoImplicit false

namespace XmlRecords

open Xml

def Xml.Node.childrenNamed (name : String) (nodes : List Node) : List (StartTag × List Node) :=
  (Node.elementsOf nodes).filter (·.1.name == name)

namespace Field

def readChild (f : Field) (child : StartTag × List Node) : Except Fault Value :=
  match f with
  | .simple key codec default => fromText key codec default (Node.directText child.2)
  | .nested _ inner _ => inner.fromNode (.element child.1 child.2)

/-- A value is the item of a child: the record it holds, or what its text denotes. Empty text
stands for the zero value where the field is repeated, else for the initial value of the field. -/
def ItemOf (f : Field) (child : StartTag × List Node) (v : Value) : Prop :=
  match f with
  | .nested _ inner _ => inner.fromNode (.element child.1 child.2) = .ok v
  | .simple key codec _ =>
    if Node.directText child.2 = "" then
      if key.occurrence = .repeated then v = codec.zero else f.initial = .ok v
    else codec.read (Node.directText child.2) = .ok v

def HoldsOf (f : Field) (tag : StartTag) (children : List Node) (v : Value) : Prop :=
  if f.key.isAttribute = true then
    ∃ raw codec, attributeValue tag.attributes f.key.xmlName = .ok raw ∧ f.codec? = some codec ∧
      if raw = "" then f.initial = .ok v else codec.read raw = .ok v
  else
    match f.key.occurrence with
    | .repeated => ∃ items, v = .list items ∧
        List.Forall₂ f.ItemOf (Node.childrenNamed f.key.xmlName children) items
    | _ =>
      match (Node.childrenNamed f.key.xmlName children).getLast? with
      | some child => f.ItemOf child v
      | none => f.initial = .ok v

section

variable {f : Field} {tag : StartTag} {children : List Node} {v : Value}

theorem holdsOf_attribute_iff (isAttribute : f.key.isAttribute = true) :
    f.HoldsOf tag children v ↔
      ∃ raw codec, attributeValue tag.attributes f.key.xmlName = .ok raw ∧ f.codec? = some codec ∧
        if raw = "" then f.initial = .ok v else codec.read raw = .ok v := by
  rw [HoldsOf, if_pos isAttribute]

theorem holdsOf_repeated_iff (element : f.key.isAttribute = false)
    (repeated : f.key.occurrence = .repeated) :
    f.HoldsOf tag children v ↔ ∃ items, v = .list items ∧
      List.Forall₂ f.ItemOf (Node.childrenNamed f.key.xmlName children) items := by
  rw [HoldsOf, if_neg (by simp [element]), repeated]

/-- A field that is not repeated holds the item of the last child of its name, and its initial value
if there is none. -/
theorem holdsOf_single_iff (element : f.key.isAttribute = false)
    (single : f.key.occurrence ≠ .repeated) :
    f.HoldsOf tag children v ↔
      (∃ child, (Node.childrenNamed f.key.xmlName children).getLast? = some child ∧
        f.ItemOf child v) ∨
      (Node.childrenNamed f.key.xmlName children = [] ∧ f.initial = .ok v) := by
  rw [HoldsOf, if_neg (by simp [element]), ← List.getLast?_eq_none_iff]
  generalize (Node.childrenNamed f.key.xmlName children).getLast? = last
  cases occurs : f.key.occurrence with
  | repeated => exact absurd occurs single
  | once => cases last <;> simp
  | optional => cases last <;> simp

end

theorem readChild_eq_ok_iff (f : Field) (child : StartTag × List Node) (v : Value) :
    f.readChild child = .ok v ↔ f.ItemOf child v := by
  cases f with
  | nested key inner default => rfl
  | simple key codec default =>
    simp only [readChild, ItemOf, fromText]
    by_cases empty : Node.directText child.2 = ""
    · simp only [empty, if_true]
      cases occurs : key.occurrence with
      | repeated => simp only [Except.ok.injEq, if_true]; exact eq_comm
      | once => simp [initial, Field.key, Field.default, Field.zero]
      | optional => simp [initial, Field.key, Field.default, Field.zero]
    · simp only [empty, if_false, ofCodec, mapError_eq_ok_iff]

end Field

/-! ### The pass over the children -/

theorem itemOf_element (fields : List Field) (tag : StartTag) (children : List Node) :
    itemOf fields (.element tag children) =
      match Field.forElement? fields tag.name with
      | none => .ok none
      | some f => (f.readChild (tag, children)).map fun v => some (f.key.name, v) := by
  rw [itemOf]
  cases Field.forElement? fields tag.name with
  | none => rfl
  | some f =>
    cases f with
    | simple key codec default =>
      simp only [Field.readChild, Field.key]
      cases Field.fromText key codec default (Node.directText children) <;> rfl
    | nested key inner default =>
      simp only [Field.readChild, Field.key, RecordType.fromNode]
      cases attributeValues inner.fields tag.attributes with
      | error fault => rfl
      | ok attributes =>
        cases itemsOf inner.fields children with
        | error fault => rfl
        | ok items =>
          simp only [bind, Except.bind]
          cases inner.assemble attributes items <;> rfl

def declaredChildren (fields : List Field) (nodes : List Node) :
    List (Field × StartTag × List Node) :=
  (Node.elementsOf nodes).filterMap fun child =>
    (Field.forElement? fields child.1.name).map fun f => (f, child)

theorem itemsOf_eq_mapM (fields : List Field) (nodes : List Node) :
    itemsOf fields nodes = (declaredChildren fields nodes).mapM fun (f, child) =>
      (f.readChild child).map fun v => (f.key.name, v) := by
  induction nodes with
  | nil => rfl
  | cons node nodes ih =>
    rw [itemsOf]
    cases node with
    | text s => simpa only [itemOf, declaredChildren, Node.elementsOf] using ih
    | comment s => simpa only [itemOf, declaredChildren, Node.elementsOf] using ih
    | instruction target data => simpa only [itemOf, declaredChildren, Node.elementsOf] using ih
    | element tag children =>
      rw [itemOf_element]
      simp only [declaredChildren, Node.elementsOf, List.filterMap_cons]
      cases Field.forElement? fields tag.name with
      | none => simpa only [declaredChildren, Option.map_none] using ih
      | some f =>
        simp only [Option.map_some, List.mapM_cons]
        cases f.readChild (tag, children) with
        | error fault => rfl
        | ok v =>
          rw [declaredChildren] at ih
          rw [← ih]
          cases itemsOf fields nodes <;> rfl

def Field.own (f : Field) (items : List (String × Value)) : List Value :=
  (items.filter (·.1 == f.key.name)).map (·.2)

/-- The items of a field are those of the children of its name, in document order. -/
theorem Field.Sound.own_items {fields : List Field} (sound : Field.Sound fields) {f : Field}
    (member : f ∈ fields) (element : f.key.isAttribute = false) {nodes : List Node}
    {items : List (String × Value)} (read : itemsOf fields nodes = .ok items) :
    List.Forall₂ f.ItemOf (Node.childrenNamed f.key.xmlName nodes) (f.own items) := by
  rw [itemsOf_eq_mapM, mapM_eq_ok_iff, declaredChildren] at read
  unfold Node.childrenNamed
  generalize Node.elementsOf nodes = elements at read ⊢
  induction elements generalizing items with
  | nil =>
    simp only [List.filterMap_nil, List.forall₂_nil_left_iff] at read
    subst items
    exact .nil
  | cons child rest ih =>
    rw [List.filterMap_cons] at read
    cases found : Field.forElement? fields child.1.name with
    | none =>
      rw [found] at read
      have other : (child.1.name == f.key.xmlName) = false := by
        rw [beq_eq_false_iff_ne]
        intro same
        have := (sound.forElement?_eq_some_iff child.1.name).mpr
          ⟨member, element, same.symm⟩
        rw [found] at this
        cases this
      rw [List.filter_cons_of_neg (by simp [other])]
      exact ih read
    | some g =>
      rw [found] at read
      obtain ⟨item, items, head, tail, rfl⟩ := List.forall₂_cons_left_iff.mp read
      obtain ⟨v, itemRead, rfl⟩ := map_eq_ok_iff.mp head
      obtain ⟨belongs, _, named⟩ := (sound.forElement?_eq_some_iff _).mp found
      by_cases same : child.1.name = f.key.xmlName
      · have g_eq : g = f := sound.eq_of_xmlName belongs member (named.trans same)
        subst g_eq
        rw [List.filter_cons_of_pos (by simp [same])]
        have here : g.own ((g.key.name, v) :: items) = v :: g.own items := by
          simp [Field.own]
        rw [here]
        exact .cons ((g.readChild_eq_ok_iff child v).mp itemRead) (ih tail)
      · have apart : ¬ g.key.name = f.key.name := by
          intro equal
          exact same (named.symm.trans
            (congrArg (·.key.xmlName) (sound.eq_of_name belongs member equal)))
        rw [List.filter_cons_of_neg (by simp [same])]
        have here : f.own ((g.key.name, v) :: items) = f.own items := by
          simp [Field.own, apart]
        rw [here]
        exact ih tail

/-- The pass over the children succeeds if every child of a declared name can be read. -/
theorem Field.Sound.exists_itemsOf_eq_ok_iff {fields : List Field} (sound : Field.Sound fields)
    {nodes : List Node} :
    (∃ items, itemsOf fields nodes = .ok items) ↔
      ∀ f ∈ fields, f.key.isAttribute = false →
        ∀ child ∈ Node.childrenNamed f.key.xmlName nodes, ∃ v, f.ItemOf child v := by
  rw [itemsOf_eq_mapM, exists_mapM_eq_ok_iff]
  simp only [map_eq_ok_iff, Field.readChild_eq_ok_iff]
  constructor
  · intro all f member element child named
    obtain ⟨present, same⟩ := List.mem_filter.mp named
    have found := (sound.forElement?_eq_some_iff child.1.name).mpr
      ⟨member, element, (beq_iff_eq.mp same).symm⟩
    obtain ⟨_, v, itemRead, _⟩ := all (f, child)
      (List.mem_filterMap.mpr ⟨child, present, by rw [found]; rfl⟩)
    exact ⟨v, itemRead⟩
  · rintro all ⟨f, child⟩ declared
    obtain ⟨child', present, found⟩ := List.mem_filterMap.mp declared
    obtain ⟨g, foundField, pair⟩ := Option.map_eq_some_iff.mp found
    obtain ⟨rfl, rfl⟩ := Prod.mk.inj pair
    obtain ⟨member, element, named⟩ := (sound.forElement?_eq_some_iff _).mp foundField
    obtain ⟨v, itemRead⟩ := all g member element child'
      (List.mem_filter.mpr ⟨present, beq_iff_eq.mpr named.symm⟩)
    exact ⟨_, v, itemRead, rfl⟩

theorem Field.ItemOf.unique {f : Field} {child : StartTag × List Node} {v w : Value}
    (hv : f.ItemOf child v) (hw : f.ItemOf child w) : v = w := by
  rw [← Field.readChild_eq_ok_iff] at hv hw
  exact Except.ok.inj (hv.symm.trans hw)

/-! ### The attributes -/

theorem Field.Sound.fromAttribute_eq_ok_iff {fields : List Field} (sound : Field.Sound fields)
    {f : Field} (member : f ∈ fields) (isAttribute : f.key.isAttribute = true) (tag : StartTag)
    (children : List Node) (v : Value) :
    f.fromAttribute tag.attributes = .ok v ↔ f.HoldsOf tag children v := by
  obtain ⟨codec, hasCodec⟩ := sound.simple f member isAttribute
  simp only [Field.HoldsOf, isAttribute, if_true, Field.fromAttribute, bind_eq_ok_iff, hasCodec,
    Option.some.injEq]
  constructor
  · rintro ⟨raw, found, value⟩
    refine ⟨raw, codec, found, rfl, ?_⟩
    by_cases empty : raw = ""
    · simpa [empty] using value
    · simpa [empty, ofCodec, mapError_eq_ok_iff] using value
  · rintro ⟨raw, _, found, rfl, value⟩
    refine ⟨raw, found, ?_⟩
    by_cases empty : raw = ""
    · simpa [empty] using value
    · simpa [empty, ofCodec, mapError_eq_ok_iff] using value

theorem attributeValues_eq_ok_iff (fields : List Field) (attributes : List Attribute)
    (values : List (String × Value)) :
    attributeValues fields attributes = .ok values ↔
      List.Forall₂ (fun f value => ∃ v, f.fromAttribute attributes = .ok v ∧
        value = (f.key.name, v)) (fields.filter (·.key.isAttribute)) values := by
  rw [attributeValues, mapM_eq_ok_iff]
  apply forall₂_congr_mem
  intro f _ value
  rw [bind_eq_ok_iff]
  constructor
  · rintro ⟨v, read, h⟩
    exact ⟨v, read, (Except.ok.inj h).symm⟩
  · rintro ⟨v, read, rfl⟩
    exact ⟨v, read, rfl⟩

theorem find?_of_attributeValues {fields : List Field} {values : List (String × Value)}
    {attributes : List Attribute} (distinct : (fields.map (·.key.name)).Nodup)
    (related : List.Forall₂ (fun (f : Field) value => ∃ v, f.fromAttribute attributes = .ok v ∧
      value = (f.key.name, v)) fields values)
    {f : Field} (member : f ∈ fields) :
    ∃ v, f.fromAttribute attributes = .ok v ∧
      values.find? (·.1 == f.key.name) = some (f.key.name, v) := by
  induction related with
  | nil => cases member
  | @cons g value gs values head tail ih =>
    obtain ⟨v, read, rfl⟩ := head
    obtain ⟨fresh, distinct⟩ := List.nodup_cons.mp distinct
    rcases List.mem_cons.mp member with rfl | below
    · exact ⟨v, read, by simp⟩
    · obtain ⟨w, readHere, found⟩ := ih distinct below
      have apart : ¬ g.key.name = f.key.name := by
        intro same
        exact fresh (List.mem_map.mpr ⟨f, below, same.symm⟩)
      exact ⟨w, readHere, by simpa [apart] using found⟩

theorem Field.Sound.exists_attributeValues_eq_ok_iff {fields : List Field}
    (sound : Field.Sound fields) (tag : StartTag) (children : List Node) :
    (∃ values, attributeValues fields tag.attributes = .ok values) ↔
      ∀ f ∈ fields, f.key.isAttribute = true → ∃ v, f.HoldsOf tag children v := by
  rw [attributeValues, exists_mapM_eq_ok_iff]
  simp only [List.mem_filter, and_imp, bind_eq_ok_iff]
  constructor
  · intro all f member isAttribute
    obtain ⟨_, v, read, _⟩ := all f member isAttribute
    exact ⟨v, (sound.fromAttribute_eq_ok_iff member isAttribute tag children v).mp read⟩
  · intro all f member isAttribute
    obtain ⟨v, holds⟩ := all f member isAttribute
    exact ⟨_, v, (sound.fromAttribute_eq_ok_iff member isAttribute tag children v).mpr holds, rfl⟩

/-! ### The record -/

theorem Field.Sound.fromItems_eq_ok_iff {fields : List Field} (sound : Field.Sound fields)
    {f : Field} (member : f ∈ fields) (element : f.key.isAttribute = false) {tag : StartTag}
    {children : List Node} {items : List (String × Value)}
    (read : itemsOf fields children = .ok items) (v : Value) :
    f.fromItems fields items = .ok v ↔ f.HoldsOf tag children v := by
  have own := sound.own_items member element read
  have last := getLast?_of_forall₂ own
  unfold Field.own at own last
  simp only [Field.fromItems, Field.HoldsOf, sound.not_shadowed member, element,
    Bool.false_eq_true, if_false]
  cases f.key.occurrence with
  | repeated =>
    constructor
    · intro h
      exact ⟨_, (Except.ok.inj h).symm, own⟩
    · rintro ⟨others, rfl, related⟩
      have unique : Relator.RightUnique f.ItemOf := fun _ _ _ hv hw => hv.unique hw
      rw [List.right_unique_forall₂' unique related own]
  | once =>
    rcases last with ⟨noChild, noItem⟩ | ⟨child, item, isChild, isItem, itemOf⟩
    · simp only [noChild, noItem]
    · simp only [isChild, isItem, Except.ok.injEq]
      exact ⟨fun h => h ▸ itemOf, fun h => itemOf.unique h⟩
  | optional =>
    rcases last with ⟨noChild, noItem⟩ | ⟨child, item, isChild, isItem, itemOf⟩
    · simp only [noChild, noItem]
    · simp only [isChild, isItem, Except.ok.injEq]
      exact ⟨fun h => h ▸ itemOf, fun h => itemOf.unique h⟩

/-- The record that is assembled from what was read holds what its fields do. -/
theorem RecordType.assemble_eq_ok_iff {type : RecordType} (sound : Field.Sound type.fields)
    {tag : StartTag} {children : List Node} {attributes items : List (String × Value)}
    (attributesRead : attributeValues type.fields tag.attributes = .ok attributes)
    (itemsRead : itemsOf type.fields children = .ok items) (v : Value) :
    type.assemble attributes items = .ok v ↔
      (∀ f ∈ type.fields, f.key.settingFault? = none) ∧
      ∃ values, v = .record type.layout values ∧
        List.Forall₂ (fun f w => f.HoldsOf tag children w) type.fields values := by
  have held (values : List Value) :
      (List.Forall₂ (fun f w => f.HoldsOf tag children w) type.fields values ∧
          (∀ f ∈ type.fields, f.key.settingFault? = none) ∧ v = .record type.layout values) ↔
        (∀ f ∈ type.fields, f.key.settingFault? = none) ∧ v = .record type.layout values ∧
          List.Forall₂ (fun f w => f.HoldsOf tag children w) type.fields values := and_rotate
  simp only [RecordType.assemble, bind_eq_ok_iff, mapM_eq_ok_iff, sound.checkReadable_eq,
    RecordType.construct_eq_ok_iff, Except.ok.injEq, exists_eq_left', ← exists_and_left, ← held]
  refine exists_congr fun values => and_congr_left fun _ => forall₂_congr_mem fun f member w => ?_
  cases isAttribute : f.key.isAttribute with
  | false =>
    simp only [Bool.false_eq_true, if_false]
    exact sound.fromItems_eq_ok_iff member isAttribute itemsRead w
  | true =>
    have related := (attributeValues_eq_ok_iff _ _ _).mp attributesRead
    have distinct : ((type.fields.filter (·.key.isAttribute)).map (·.key.name)).Nodup :=
      sound.distinct.sublist (List.filter_sublist.map _)
    obtain ⟨value, read, found⟩ := find?_of_attributeValues distinct related
      (List.mem_filter.mpr ⟨member, isAttribute⟩)
    rw [found, ← sound.fromAttribute_eq_ok_iff member isAttribute, read]
    exact Iff.rfl

/-- Reading an element succeeds if every child of a declared name can be read, every field holds
something and every field can be set. The record then holds what its fields do. -/
theorem RecordType.fromNode_eq_ok_iff {type : RecordType} (sound : Field.Sound type.fields)
    (tag : StartTag) (children : List Node) (v : Value) :
    type.fromNode (.element tag children) = .ok v ↔
      (∀ f ∈ type.fields, f.key.isAttribute = false →
        ∀ child ∈ Node.childrenNamed f.key.xmlName children, ∃ w, f.ItemOf child w) ∧
      (∀ f ∈ type.fields, f.key.settingFault? = none) ∧
      ∃ values, v = .record type.layout values ∧
        List.Forall₂ (fun f w => f.HoldsOf tag children w) type.fields values := by
  simp only [RecordType.fromNode, bind_eq_ok_iff]
  constructor
  · rintro ⟨attributes, attributesRead, items, itemsRead, assembled⟩
    exact ⟨sound.exists_itemsOf_eq_ok_iff.mp ⟨items, itemsRead⟩,
      (RecordType.assemble_eq_ok_iff sound attributesRead itemsRead v).mp assembled⟩
  · rintro ⟨readable, settable, values, rfl, held⟩
    obtain ⟨items, itemsRead⟩ := sound.exists_itemsOf_eq_ok_iff.mpr readable
    have attributesHold : ∀ f ∈ type.fields, f.key.isAttribute = true →
        ∃ v, f.HoldsOf tag children v := by
      intro f member _
      obtain ⟨v, _, holds⟩ := exists_of_forall₂_left held member
      exact ⟨v, holds⟩
    obtain ⟨attributes, attributesRead⟩ :=
      (sound.exists_attributeValues_eq_ok_iff tag children).mpr attributesHold
    exact ⟨attributes, attributesRead, items, itemsRead,
      (RecordType.assemble_eq_ok_iff sound attributesRead itemsRead _).mpr
        ⟨settable, values, rfl, held⟩⟩

/-! ### The record of nothing -/

def Xml.StartTag.bare : StartTag := ⟨"", "empty", []⟩

theorem attributeValue_nil (name : String) :
    attributeValue [] name = (attributeQuery name).map fun _ => "" := by
  unfold attributeValue
  cases attributeQuery name <;> rfl

theorem emptyValues_eq_mapM (fields : List Field) : emptyValues fields = fields.mapM Field.empty := by
  induction fields with
  | nil => rfl
  | cons f fields ih => rw [emptyValues, List.mapM_cons, ih]

theorem Field.empty_eq_ok_iff (f : Field) (v : Value) :
    f.empty = .ok v ↔
      (f.key.isAttribute = true → ∃ query, attributeQuery f.key.xmlName = .ok query) ∧
        f.initial = .ok v := by
  cases f with
  | simple key codec default =>
    rw [Field.empty]
    simp only [Field.key, Field.initial, Field.default, Field.zero]
    by_cases isAttribute : key.isAttribute = true
    · simp only [isAttribute, if_true, bind_eq_ok_iff, true_implies]
      exact exists_and_right
    · simp [isAttribute]
  | nested key inner default =>
    rw [Field.empty]
    simp only [Field.key, Field.initial, Field.default, Field.zero]
    by_cases isAttribute : key.isAttribute = true
    · simp only [isAttribute, if_true, bind_eq_ok_iff, true_implies]
      exact exists_and_right
    · simp [isAttribute]

/-- The record without content is what an element without content gives. -/
theorem RecordType.empty_eq_ok_iff {type : RecordType} (sound : Field.Sound type.fields) (v : Value) :
    type.empty = .ok v ↔ type.fromNode (.element .bare []) = .ok v := by
  have held (f : Field) (member : f ∈ type.fields) (w : Value) :
      f.empty = .ok w ↔ f.HoldsOf .bare [] w := by
    rw [Field.empty_eq_ok_iff, Field.HoldsOf]
    cases isAttribute : f.key.isAttribute with
    | true =>
      obtain ⟨codec, hasCodec⟩ := sound.simple f member isAttribute
      simp only [true_implies, if_true, StartTag.bare, attributeValue_nil, map_eq_ok_iff, hasCodec]
      constructor
      · rintro ⟨⟨query, found⟩, initial⟩
        exact ⟨"", codec, ⟨query, found, rfl⟩, rfl, by simpa using initial⟩
      · rintro ⟨_, _, ⟨query, found, rfl⟩, _, initial⟩
        exact ⟨⟨query, found⟩, by simpa using initial⟩
    | false =>
      simp only [Bool.false_eq_true, false_implies, true_and, if_false, Node.childrenNamed,
        Node.elementsOf, List.filter_nil, List.getLast?_nil, List.forall₂_nil_left_iff]
      cases occurs : f.key.occurrence with
      | repeated =>
        simp only [Field.initial, FieldKey.initial, occurs, Except.ok.injEq, exists_eq_right]
        exact eq_comm
      | once => exact Iff.rfl
      | optional => exact Iff.rfl
  have values (ws : List Value) : emptyValues type.fields = .ok ws ↔
      List.Forall₂ (fun f w => f.HoldsOf .bare [] w) type.fields ws := by
    rw [emptyValues_eq_mapM, mapM_eq_ok_iff]
    exact forall₂_congr_mem held
  rw [RecordType.fromNode_eq_ok_iff sound]
  cases type with
  | mk className name fields =>
    have checked (ws : List Value) : checkReadable fields ws = .ok ws := sound.checkReadable_eq ws
    rw [RecordType.empty]
    simp only [bind_eq_ok_iff, RecordType.fields, checked, Except.ok.injEq,
      RecordType.construct_eq_ok_iff] at values ⊢
    constructor
    · rintro ⟨ws, empty, _, rfl, settable, rfl⟩
      refine ⟨?_, settable, ws, rfl, (values ws).mp empty⟩
      intro f _ _ child none
      cases none
    · rintro ⟨_, settable, ws, rfl, held⟩
      exact ⟨ws, (values ws).mpr held, ws, rfl, settable, rfl⟩

theorem Field.codec_or_type (f : Field) :
    (∃ codec, f.codec? = some codec) ∨ ∃ inner, f.type? = some inner := by
  cases f with
  | simple key codec default => exact .inl ⟨codec, rfl⟩
  | nested key inner default => exact .inr ⟨inner, rfl⟩

end XmlRecords
