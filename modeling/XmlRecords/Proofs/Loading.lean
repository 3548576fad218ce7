import XmlRecords.Proofs.ItemReadBack
import XmlRecords.Proofs.Validity

/-!
What loading a schema gives: types that are numbered in turn, attributes of simple types or lists of
them, elements that hold no lists, and enumerations whose texts have tags of their own.
-/

set_option autoImplicit false
set_option relaxedAutoImplicit false

namespace XmlRecords

open Schema Xml

/-! ### The types of attributes and elements -/

def Schema.LegibleDefaults (s : Schema) : Prop :=
  ∀ t ∈ s.declared ++ s.undeclared, ∀ a ∈ t.attributes, ∀ text, a.default = some text →
    Legible text.toList

/-- The content of a complex type: attributes of single types or lists of them, and elements of
single or complex types. -/
structure Schema.ComplexType.Regular (t : ComplexType) : Prop where
  attributes : ∀ a ∈ t.attributes, a.type.IsSingle ∨ ∃ item, a.type = .list item ∧ item.IsSingle
  elements : ∀ e ∈ t.elements, e.type.IsSingle ∨ ∃ id, e.type = .complex id

namespace Schema

theorem isSingle_of_simpleType {scope : Scope} {name location : Label} {type : DeclaredType}
    (found : scope.simpleType name location = .ok type) : type.IsSingle := by
  unfold Scope.simpleType at found
  obtain ⟨name, _, found⟩ := bind_eq_ok_iff.mp found
  split at found
  · obtain rfl := Except.ok.inj found
    trivial
  · split at found
    · obtain rfl := Except.ok.inj found
      trivial
    · cases found

theorem single_or_complex_of_elementType {scope : Scope} {name : Label} {owner : ComplexType}
    {type : DeclaredType} (found : scope.elementType name owner = .ok type) :
    type.IsSingle ∨ ∃ id, type = .complex id := by
  unfold Scope.elementType at found
  obtain ⟨name, _, found⟩ := bind_eq_ok_iff.mp found
  split at found
  · obtain rfl := Except.ok.inj found
    exact .inl trivial
  · split at found
    · obtain rfl := Except.ok.inj found
      exact .inr ⟨_, rfl⟩
    · split at found
      · obtain rfl := Except.ok.inj found
        exact .inl trivial
      · cases found

theorem type_of_resolveAttribute {scope : Scope} {owner : ComplexType} {item : Json} {a : Attribute}
    (resolved : scope.resolveAttribute owner item = .ok a) : ∃ name location type,
      scope.simpleType name location = .ok type ∧
        a.type = if holdsUnder item "list" then .list type else type := by
  unfold Scope.resolveAttribute at resolved
  simp only [bind_eq_ok_iff, pure, Except.pure] at resolved
  obtain ⟨_, _, name, _, type, simple, resolved⟩ := resolved
  refine ⟨name, _, type, simple, ?_⟩
  split at resolved
  · exact congrArg Attribute.type (Except.ok.inj resolved).symm
  · exact congrArg Attribute.type (Except.ok.inj resolved).symm
  · cases resolved

theorem type_of_resolveElement {scope : Scope} {owner : ComplexType} {item : Json} {e : Element}
    (resolved : scope.resolveElement owner item = .ok e) :
    ∃ name, scope.elementType name owner = .ok e.type := by
  unfold Scope.resolveElement at resolved
  simp only [bind_eq_ok_iff, pure, Except.pure] at resolved
  obtain ⟨_, _, name, _, _, _, _, _, type, found, resolved⟩ := resolved
  obtain rfl := Except.ok.inj resolved
  exact ⟨name, found⟩

theorem regular_of_resolveType {scope : Scope} {t resolved : ComplexType} {item : Json}
    (found : scope.resolveType t item = .ok resolved) : resolved.Regular := by
  unfold Scope.resolveType at found
  simp only [bind_eq_ok_iff, mapM_eq_ok_iff, pure, Except.pure, Except.ok.injEq] at found
  obtain ⟨_, _, attributes, ofAttributes, _, _, elements, ofElements, rfl⟩ := found
  constructor
  · intro a member
    obtain ⟨definition, _, isResolved⟩ := exists_of_forall₂_left ofAttributes.flip member
    obtain ⟨name, location, type, simple, isType⟩ := type_of_resolveAttribute isResolved
    have single := isSingle_of_simpleType simple
    rw [isType]
    split
    · exact .inr ⟨type, rfl, single⟩
    · exact .inl single
  · intro e member
    obtain ⟨definition, _, isResolved⟩ := exists_of_forall₂_left ofElements.flip member
    obtain ⟨name, found⟩ := type_of_resolveElement isResolved
    exact single_or_complex_of_elementType found

/-- The outlines that declaring types gives, with the number of the first: of no types, of a type before
those nested in it, and of types in a row. -/
inductive Outlined : TypeId → Outline → Prop
  | nil {next : TypeId} : Outlined next ⟨[], []⟩
  | enclose {next : TypeId} {inner : Outline} (name qualifiedName : Label) (parent : Option TypeId)
      (item : Json) :
      Outlined (next + 1) inner →
      Outlined next ⟨⟨next, name, qualifiedName, parent, [], []⟩ :: inner.declared,
        inner.pending ++ [(next, item)]⟩
  | append {next : TypeId} {first rest : Outline} :
      Outlined next first → Outlined (next + first.declared.length) rest →
      Outlined next (first.append rest)

mutual
theorem outlined_of_declareType {source : Label} {next : TypeId} {enclosing : Enclosing} {item : Json}
    {outline : Outline} (declared : declareType source next enclosing item = .ok outline) :
    Outlined next outline := by
  cases item with
  | object members =>
    rw [declareType] at declared
    obtain ⟨name, _, declared⟩ := bind_eq_ok_iff.mp declared
    obtain ⟨inner, under, declared⟩ := bind_eq_ok_iff.mp declared
    obtain rfl := Except.ok.inj declared
    exact .enclose _ _ _ _ (outlined_of_declareUnder under)
  | _ => simp [declareType] at declared

theorem outlined_of_declareUnder {source : Label} {next : TypeId} {enclosing : Enclosing}
    {members : List (String × Json)} {outline : Outline}
    (declared : declareUnder source next enclosing members = .ok outline) : Outlined next outline := by
  cases members with
  | nil =>
    rw [declareUnder] at declared
    obtain rfl := Except.ok.inj declared
    exact .nil
  | cons member members =>
    obtain ⟨key, value⟩ := member
    rw [declareUnder] at declared
    split at declared
    · exact outlined_of_declareTypes declared
    · exact outlined_of_declareUnder declared

theorem outlined_of_declareTypes {source : Label} {next : TypeId} {enclosing : Enclosing}
    {value : Json} {outline : Outline}
    (declared : declareTypes source next enclosing value = .ok outline) : Outlined next outline := by
  cases value with
  | array items =>
    rw [declareTypes] at declared
    exact outlined_of_declareItems declared
  | object members =>
    cases members with
    | nil =>
      rw [declareTypes] at declared
      obtain rfl := Except.ok.inj declared
      exact .nil
    | cons member members => simp [declareTypes] at declared
  | text s =>
    rw [declareTypes] at declared
    split at declared
    · obtain rfl := Except.ok.inj declared
      exact .nil
    · cases declared
  | _ => simp [declareTypes] at declared

theorem outlined_of_declareItems {source : Label} {next : TypeId} {enclosing : Enclosing}
    {items : List Json} {outline : Outline}
    (declared : declareItems source next enclosing items = .ok outline) : Outlined next outline := by
  cases items with
  | nil =>
    rw [declareItems] at declared
    obtain rfl := Except.ok.inj declared
    exact .nil
  | cons item items =>
    rw [declareItems] at declared
    obtain ⟨first, isFirst, declared⟩ := bind_eq_ok_iff.mp declared
    obtain ⟨rest, isRest, declared⟩ := bind_eq_ok_iff.mp declared
    obtain rfl := Except.ok.inj declared
    exact .append (outlined_of_declareType isFirst) (outlined_of_declareItems isRest)
end

theorem Outlined.bare {next : TypeId} {outline : Outline} (outlined : Outlined next outline) :
    ∀ t ∈ outline.declared, t.attributes = [] ∧ t.elements = [] := by
  induction outlined with
  | nil => exact fun _ => nofun
  | enclose name qualifiedName parent item _ ih => exact List.forall_mem_cons.mpr ⟨⟨rfl, rfl⟩, ih⟩
  | append _ _ head tail => exact List.forall_mem_append.mpr ⟨head, tail⟩

theorem Outlined.numbered {next : TypeId} {outline : Outline} (outlined : Outlined next outline) :
    outline.declared.map (·.id) = List.range' next outline.declared.length := by
  induction outlined with
  | nil => rfl
  | enclose name qualifiedName parent item _ ih =>
    rw [List.map_cons, ih, List.length_cons, List.range'_succ]
  | append _ _ head tail =>
    rw [Outline.append, List.map_append, head, tail, List.length_append, List.range'_append_1]

/-- The types of a loaded schema are those declared, in order, each of them bare or resolved among all
of them. -/
structure Fills (outline : Outline) (s : Schema) : Prop where
  undeclared : s.undeclared = []
  ids : s.declared.map (·.id) = outline.declared.map (·.id)
  types : ∀ t ∈ s.declared, t ∈ outline.declared ∨ ∃ bare item,
    Scope.resolveType ⟨outline.declared, s.enumerations⟩ bare item = .ok t

theorem exists_outline_of_load {definition : Json} {source : Label} {s : Schema}
    (loaded : load definition source = .ok s) : s.validate = .ok () ∧ ∃ members outline,
      declareUnder source 0 none members = .ok outline ∧ Fills outline s := by
  unfold load at loaded
  obtain ⟨s', defined, loaded⟩ := bind_eq_ok_iff.mp loaded
  obtain ⟨_, valid, loaded⟩ := bind_eq_ok_iff.mp loaded
  obtain rfl := Except.ok.inj loaded
  unfold ofDefinition at defined
  split at defined
  · rename_i members
    simp only [bind_eq_ok_iff] at defined
    obtain ⟨name, _, _, _, enumerations, _, outline, isOutline, defined⟩ := defined
    obtain ⟨resolved, isResolved, _, _, _, _, _, _, defined⟩ := defined
    split at defined
    · cases defined
    · obtain rfl := Except.ok.inj defined
      refine ⟨valid, members, outline, isOutline, rfl, ?_, ?_⟩
      · rw [List.map_map]
        refine List.map_congr_left fun t _ => ?_
        simp only [Function.comp]
        cases found : resolved.find? (·.id == t.id) with
        | none => rfl
        | some filled => simpa using List.find?_some found
      · intro t member
        obtain ⟨bare, inOutline, rfl⟩ := List.mem_map.mp member
        cases found : resolved.find? (·.id == bare.id) with
        | none => exact .inl inOutline
        | some filled =>
          unfold Scope.resolve at isResolved
          rw [mapM_eq_ok_iff] at isResolved
          obtain ⟨⟨id, item⟩, _, isType⟩ :=
            exists_of_forall₂_left isResolved.flip (List.mem_of_find?_eq_some found)
          simp only at isType
          split at isType
          · rename_i other _
            exact .inr ⟨other, item, isType⟩
          · cases isType
  · cases defined

theorem regular_of_load {definition : Json} {source : Label} {s : Schema}
    (loaded : load definition source = .ok s) :
    s.undeclared = [] ∧ ∀ t ∈ s.declared, t.Regular := by
  obtain ⟨_, members, outline, isOutline, fills⟩ := exists_outline_of_load loaded
  refine ⟨fills.undeclared, fun t member => ?_⟩
  rcases fills.types t member with inOutline | ⟨bare, item, resolved⟩
  · obtain ⟨noAttributes, noElements⟩ := (outlined_of_declareUnder isOutline).bare t inOutline
    exact ⟨by simp [noAttributes], by simp [noElements]⟩
  · exact regular_of_resolveType resolved

end Schema

namespace BoundSchema

variable {s : Schema} {b : BoundSchema}

theorem distinct_of_ofValues {name : String} {values : List String} {e : Enumeration}
    (tags : (values.map Identifier.tag).Nodup ∧ "UNKNOWN" ∉ values.map Identifier.tag)
    (bound : Enumeration.ofValues name values = .ok e) : e.Distinct := by
  unfold Enumeration.ofValues at bound
  simp only at bound
  split at bound
  · cases bound
  · obtain rfl := Except.ok.inj bound
    have names : (Enumeration.entriesOf values).map (·.1) = values.map Identifier.tag := by
      rw [Enumeration.entriesOf, List.map_map]
      rfl
    exact ⟨by rw [names]; exact tags.1, by rw [names]; exact tags.2⟩

theorem distinct_of_bind (bound : bind s = .ok b) : ∀ entry ∈ b.enumerations, entry.2.Distinct := by
  unfold bind at bound
  obtain ⟨_, valid, bound⟩ := bind_eq_ok_iff.mp bound
  obtain ⟨enumerations, boundEnumerations, bound⟩ := bind_eq_ok_iff.mp bound
  obtain ⟨_, _, bound⟩ := bind_eq_ok_iff.mp bound
  obtain ⟨_, _, bound⟩ := bind_eq_ok_iff.mp bound
  obtain rfl := Except.ok.inj bound
  intro entry member
  obtain ⟨e, declared, isBound⟩ :=
    exists_of_forall₂_left (mapM_eq_ok_iff.mp boundEnumerations).flip member
  have tags := (checked_of_validate valid).tags e declared
  unfold bindEnumeration at isBound
  obtain ⟨name, _, isBound⟩ := bind_eq_ok_iff.mp isBound
  split at isBound
  · rename_i e' isEnumeration
    obtain rfl := Except.ok.inj isBound
    exact distinct_of_ofValues tags isEnumeration
  · cases isBound

/-! ### Fields -/

theorem flat_of_codecOf {enumerations : List (Label × Enumeration)}
    (distinct : ∀ entry ∈ enumerations, entry.2.Distinct) {type : DeclaredType} {name : TypeId → Label}
    {codec : Codec} (single : type.IsSingle)
    (found : codecOf (enumerationNamed? enumerations) type name = .ok codec) :
    codec.IsFlat ∧ codec.Proper := by
  cases type with
  | primitive p =>
    obtain rfl := Except.ok.inj found
    cases p <;> exact ⟨trivial, trivial⟩
  | enumerated e =>
    rw [codecOf] at found
    split at found
    · rename_i bound isBound
      obtain rfl := Except.ok.inj found
      obtain ⟨entry, first, rfl⟩ := Option.map_eq_some_iff.mp isBound
      exact ⟨trivial, distinct entry (List.mem_of_find?_eq_some first)⟩
    · cases found
  | list item => exact single.elim
  | complex id => exact single.elim

theorem proper_of_codecOf {enumerations : List (Label × Enumeration)}
    (distinct : ∀ entry ∈ enumerations, entry.2.Distinct) {type : DeclaredType} {name : TypeId → Label}
    {codec : Codec} (shape : type.IsSingle ∨ ∃ item, type = .list item ∧ item.IsSingle)
    (found : codecOf (enumerationNamed? enumerations) type name = .ok codec) : codec.Proper := by
  rcases shape with single | ⟨item, rfl, single⟩
  · exact (flat_of_codecOf distinct single found).2
  · rw [codecOf] at found
    obtain ⟨inner, isInner, rfl⟩ := map_eq_ok_iff.mp found
    exact flat_of_codecOf distinct single isInner

theorem typed_of_declares {enumerations : List (Label × Enumeration)}
    (distinct : ∀ entry ∈ enumerations, entry.2.Distinct) {t : ComplexType} (regular : t.Regular)
    (defaults : ∀ a ∈ t.attributes, ∀ text, a.default = some text → Legible text.toList)
    {fields : List Field} (declared : ∀ f ∈ fields, Declares s enumerations t f) :
    Field.Typed fields := by
  intro f member codec simple
  cases declared f member with
  | value inAttributes _ found default =>
    obtain rfl := Option.some.inj simple
    refine ⟨proper_of_codecOf distinct (regular.attributes _ inAttributes) found, by simp [Field.key], ?_⟩
    rcases default with absent | ⟨text, given, read⟩
    · exact .inl absent
    · exact .inr ⟨text, defaults _ inAttributes text given, read⟩
  | text inElements _ found =>
    obtain rfl := Option.some.inj simple
    rcases regular.elements _ inElements with single | ⟨id, isComplex⟩
    · obtain ⟨flat, proper⟩ := flat_of_codecOf distinct single found
      exact ⟨proper, fun _ => flat, .inl rfl⟩
    · rw [isComplex] at found
      cases found
  | record => cases simple

end BoundSchema

end XmlRecords
