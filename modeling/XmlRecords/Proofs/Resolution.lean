import XmlRecords.Proofs.Loading

/-!
What the names in a loaded schema stand for. Types are numbered in the order of their declaration, so
that a number is that of one type, and the type of every attribute and element is among those of the
schema. Lookups by name find what was declared under it.
-/

set_option autoImplicit false
set_option relaxedAutoImplicit false

namespace XmlRecords.Schema

/-! ### Types of attributes and elements -/

/-- A type is primitive, an enumeration or complex type among the given ones, or a list of such. -/
def DeclaredType.Among (ids : List TypeId) (es : List Enumerated) : DeclaredType → Prop
  | .primitive _ => True
  | .enumerated e => e ∈ es
  | .list item => item.Among ids es
  | .complex id => id ∈ ids

theorem mem_of_findNested {types : List ComplexType} {name : Label} {fuel : Nat}
    {scope : Option TypeId} {t : ComplexType} (found : findNested types name fuel scope = some t) :
    t ∈ types := by
  induction fuel generalizing scope with
  | zero => cases found
  | succ fuel ih =>
    cases scope with
    | none => cases found
    | some id =>
      rw [findNested] at found
      split at found
      · rename_i first
        obtain rfl := Option.some.inj found
        exact List.mem_of_find?_eq_some first
      · exact ih found

theorem mem_of_findComplex {types : List ComplexType} {name : Label} {scope : Option TypeId}
    {t : ComplexType} (found : findComplex types name scope = some t) : t ∈ types := by
  unfold findComplex at found
  split at found
  · rename_i nested
    obtain rfl := Option.some.inj found
    exact mem_of_findNested nested
  · split at found
    · rename_i top
      obtain rfl := Option.some.inj found
      exact List.mem_of_find?_eq_some top
    · exact List.mem_of_find?_eq_some found

variable {scope : Scope}

theorem among_of_simpleType {name location : Label} {type : DeclaredType}
    (found : scope.simpleType name location = .ok type) :
    type.Among (scope.types.map (·.id)) scope.enumerations := by
  unfold Scope.simpleType at found
  obtain ⟨name, _, found⟩ := bind_eq_ok_iff.mp found
  split at found
  · obtain rfl := Except.ok.inj found
    trivial
  · split at found
    · rename_i isEnumerated
      obtain rfl := Except.ok.inj found
      exact List.mem_of_find?_eq_some isEnumerated
    · cases found

theorem among_of_elementType {name : Label} {owner : ComplexType} {type : DeclaredType}
    (found : scope.elementType name owner = .ok type) :
    type.Among (scope.types.map (·.id)) scope.enumerations := by
  unfold Scope.elementType at found
  obtain ⟨name, _, found⟩ := bind_eq_ok_iff.mp found
  split at found
  · obtain rfl := Except.ok.inj found
    trivial
  · split at found
    · rename_i isComplex
      obtain rfl := Except.ok.inj found
      exact List.mem_map_of_mem (mem_of_findComplex isComplex)
    · split at found
      · rename_i isEnumerated
        obtain rfl := Except.ok.inj found
        exact List.mem_of_find?_eq_some isEnumerated
      · cases found

/-- The types of the content of a complex type are among the given ones. -/
structure ComplexType.Within (ids : List TypeId) (es : List Enumerated) (t : ComplexType) : Prop where
  attributes : ∀ a ∈ t.attributes, a.type.Among ids es
  elements : ∀ e ∈ t.elements, e.type.Among ids es

theorem within_of_resolveType {t resolved : ComplexType} {item : Json}
    (found : scope.resolveType t item = .ok resolved) :
    resolved.Within (scope.types.map (·.id)) scope.enumerations := by
  unfold Scope.resolveType at found
  simp only [bind_eq_ok_iff, mapM_eq_ok_iff, pure, Except.pure, Except.ok.injEq] at found
  obtain ⟨_, _, attributes, ofAttributes, _, _, elements, ofElements, rfl⟩ := found
  constructor
  · intro a member
    obtain ⟨definition, _, isResolved⟩ := exists_of_forall₂_left ofAttributes.flip member
    obtain ⟨name, location, type, simple, isType⟩ := type_of_resolveAttribute isResolved
    have among := among_of_simpleType simple
    rw [isType]
    split
    · exact among
    · exact among
  · intro e member
    obtain ⟨definition, _, isResolved⟩ := exists_of_forall₂_left ofElements.flip member
    obtain ⟨name, found⟩ := type_of_resolveElement isResolved
    exact among_of_elementType found

/-! ### Loaded schemas -/

/-- A schema whose types have numbers of their own and refer to its own types and enumerations. -/
structure Closed (s : Schema) : Prop where
  undeclared : s.undeclared = []
  ids : (s.declared.map (·.id)).Nodup
  types : ∀ t ∈ s.declared, t.Within (s.declared.map (·.id)) s.enumerations

theorem closed_of_load {definition : Json} {source : Label} {s : Schema}
    (loaded : load definition source = .ok s) : s.Closed := by
  obtain ⟨_, members, outline, isOutline, fills⟩ := exists_outline_of_load loaded
  refine ⟨fills.undeclared, ?_, ?_⟩
  · rw [fills.ids, (outlined_of_declareUnder isOutline).numbered]
    exact List.nodup_range'
  · intro t member
    rw [fills.ids]
    rcases fills.types t member with inOutline | ⟨bare, item, resolved⟩
    · obtain ⟨noAttributes, noElements⟩ := (outlined_of_declareUnder isOutline).bare t inOutline
      exact ⟨by simp [noAttributes], by simp [noElements]⟩
    · exact within_of_resolveType resolved

/-! ### Lookups -/

theorem find?_eq_some_of_nodup {α β : Type} {key : α → β} {sought : β → Bool} {items : List α}
    (distinct : (items.map key).Nodup) {item : α} (member : item ∈ items)
    (only : ∀ k, sought k = true ↔ k = key item) :
    items.find? (fun other => sought (key other)) = some item := by
  induction items with
  | nil => cases member
  | cons first rest ih =>
    rw [List.map_cons, List.nodup_cons] at distinct
    rw [List.find?_cons]
    rcases List.mem_cons.mp member with rfl | below
    · rw [(only (key item)).mpr rfl]
    · have other : sought (key first) = false := by
        rw [Bool.eq_false_iff, Ne, only]
        exact fun same => distinct.1 (same ▸ List.mem_map_of_mem below)
      rw [other]
      exact ih distinct.2 below

theorem find?_same_eq_some {α : Type} {label : α → Label} {items : List α}
    (distinct : (items.map label).Nodup) {item : α} (member : item ∈ items) {name : String}
    (named : label item = .text name) :
    items.find? (fun other => (label other).same (.text name)) = some item := by
  refine @find?_eq_some_of_nodup _ _ label (·.same (.text name)) _ distinct _ member fun k => ?_
  rw [same_text_iff, named]

variable {s : Schema}

theorem Checked.enumerationNames (checked : s.Checked) : (s.enumerations.map (·.name)).Nodup := by
  have classes : s.enumerations.map Enumerated.className =
      (s.enumerations.map (·.name)).map fun name => Identifier.recordClass name.shown := by
    rw [List.map_map]
    rfl
  have distinct := checked.enumerationClasses
  rw [classes] at distinct
  exact distinct.of_map _

theorem Checked.typeNames (checked : s.Checked) : (s.declared.map (·.qualifiedName)).Nodup := by
  have classes : s.declared.map ComplexType.className =
      (s.declared.map (·.qualifiedName)).map fun name => Identifier.recordClass name.shown := by
    rw [List.map_map]
    rfl
  have distinct := checked.typeClasses
  rw [classes] at distinct
  exact distinct.of_map _

theorem Checked.enumeratedNamed? (checked : s.Checked) {e : Enumerated} (member : e ∈ s.enumerations) :
    s.enumeratedNamed? e.name = some e := by
  obtain ⟨name, named⟩ := checked.enumerations e member
  rw [Schema.enumeratedNamed?, named]
  exact find?_same_eq_some checked.enumerationNames member named

theorem Checked.typeNamed? (checked : s.Checked) {t : ComplexType} (member : t ∈ s.declared) :
    s.typeNamed? t.qualifiedName = some t := by
  obtain ⟨name, named⟩ := (checked.types t member).name
  rw [Schema.typeNamed?, named]
  exact find?_same_eq_some checked.typeNames member named

theorem Closed.type? (closed : s.Closed) {t : ComplexType} (member : t ∈ s.declared) :
    s.type? t.id = some t := by
  rw [Schema.type?, closed.undeclared, List.append_nil]
  exact @find?_eq_some_of_nodup _ _ ComplexType.id (· == t.id) _ closed.ids _ member fun k => by
    rw [beq_iff_eq]

theorem Closed.mem_of_refers (closed : s.Closed) {a b : TypeId} (refers : s.Refers a b) :
    b ∈ s.declared.map (·.id) := by
  obtain ⟨t, found, reference⟩ := refers
  have member := List.mem_of_find?_eq_some found
  rw [closed.undeclared, List.append_nil] at member
  obtain ⟨e, inside, isComplex⟩ := List.mem_filterMap.mp reference
  have among := (closed.types t member).elements e inside
  cases type : e.type with
  | complex id =>
    rw [type] at among isComplex
    obtain rfl := Option.some.inj isComplex
    exact among
  | _ =>
    rw [type] at isComplex
    cases isComplex

theorem Closed.mem_of_leads (closed : s.Closed) {a b : TypeId} (member : a ∈ s.declared.map (·.id))
    (leads : Relation.ReflTransGen s.Refers a b) : b ∈ s.declared.map (·.id) := by
  cases leads with
  | refl => exact member
  | tail _ refers => exact closed.mem_of_refers refers

end XmlRecords.Schema
