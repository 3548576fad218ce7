import XmlRecords.Proofs.Sites

/-!
Schemas as they are before any check: what `ofDefinition` gives, part by part, and the enumerations
that a list of definitions declares.
-/

set_option autoImplicit false
set_option relaxedAutoImplicit false

namespace XmlRecords.Schema

/-! ### Resolved types -/

def ResolvesTo (scope : Scope) (outline : Outline) (t resolved : ComplexType) : Prop :=
  ∃ item, (t.id, item) ∈ outline.pending ∧ scope.resolveType t item = .ok resolved

/-- Where types are numbered and each waits to be resolved once, resolving them in turn is resolving
each of them. -/
structure Outline.Pending (outline : Outline) : Prop where
  ids : (outline.declared.map (·.id)).Nodup
  pending : (outline.pending.map (·.1)).Perm (outline.declared.map (·.id))

theorem label_of_resolveType {scope : Scope} {t resolved : ComplexType} {item : Json}
    (found : scope.resolveType t item = .ok resolved) :
    resolved.id = t.id ∧ resolved.qualifiedName = t.qualifiedName := by
  unfold Scope.resolveType at found
  simp only [bind_eq_ok_iff, pure, Except.pure, Except.ok.injEq] at found
  obtain ⟨_, _, _, _, _, _, _, _, rfl⟩ := found
  exact ⟨rfl, rfl⟩

namespace Outline.Pending

variable {outline : Outline} {scope : Scope}

theorem find?_eq (h : outline.Pending) {t : ComplexType} (member : t ∈ outline.declared) :
    outline.declared.find? (·.id == t.id) = some t :=
  @find?_eq_some_of_nodup _ _ ComplexType.id (· == t.id) _ h.ids _ member fun k => by rw [beq_iff_eq]

theorem unique (h : outline.Pending) {id : TypeId} {item other : Json}
    (first : (id, item) ∈ outline.pending) (second : (id, other) ∈ outline.pending) :
    item = other := by
  have distinct := h.pending.nodup_iff.mpr h.ids
  exact (Prod.mk.inj (List.inj_on_of_nodup_map distinct first second rfl)).2

theorem rightUnique (h : outline.Pending) : Relator.RightUnique (ResolvesTo scope outline) := by
  rintro t r r' ⟨item, waiting, isType⟩ ⟨item', waiting', isType'⟩
  obtain rfl := h.unique waiting waiting'
  exact Except.ok.inj (isType.symm.trans isType')

theorem resolve_eq_ok_iff (h : outline.Pending) (types : scope.types = outline.declared)
    {resolved : List ComplexType} :
    scope.resolve outline.pending = .ok resolved ↔
      List.Forall₂ (fun entry r => ∃ t ∈ outline.declared, t.id = entry.1 ∧
        scope.resolveType t entry.2 = .ok r) outline.pending resolved := by
  rw [Scope.resolve, mapM_eq_ok_iff]
  refine forall₂_congr_mem fun entry member r => ?_
  obtain ⟨t, inside, same⟩ :=
    List.mem_map.mp (h.pending.subset (List.mem_map_of_mem (f := (·.1)) member))
  have found : scope.types.find? (·.id == entry.1) = some t := by
    rw [types, ← same]
    exact h.find?_eq inside
  simp only [found]
  constructor
  · exact fun given => ⟨t, inside, same, given⟩
  · rintro ⟨u, uInside, uSame, given⟩
    obtain rfl := List.inj_on_of_nodup_map h.ids inside uInside (same.trans uSame.symm)
    exact given

theorem exists_item (h : outline.Pending) {t : ComplexType} (member : t ∈ outline.declared) :
    ∃ item, (t.id, item) ∈ outline.pending := by
  obtain ⟨⟨id, item⟩, waiting, rfl⟩ :=
    List.mem_map.mp (h.pending.symm.subset (List.mem_map_of_mem (f := (·.id)) member))
  exact ⟨item, waiting⟩

/-- What is found under the number of a type, among the resolved ones, it is resolved to. -/
theorem resolvesTo_of_resolve (h : outline.Pending) (types : scope.types = outline.declared)
    {resolved : List ComplexType} (isResolved : scope.resolve outline.pending = .ok resolved)
    {t : ComplexType} (member : t ∈ outline.declared) :
    ResolvesTo scope outline t ((resolved.find? (·.id == t.id)).getD t) := by
  rw [h.resolve_eq_ok_iff types] at isResolved
  obtain ⟨item, waiting⟩ := h.exists_item member
  obtain ⟨r, inside, u, uInside, same, isType⟩ := exists_of_forall₂_left isResolved waiting
  have present : (resolved.find? (·.id == t.id)).isSome = true := by
    rw [List.find?_isSome]
    exact ⟨r, inside, by rw [(label_of_resolveType isType).1, same, beq_self_eq_true]⟩
  obtain ⟨found, isFound⟩ := Option.isSome_iff_exists.mp present
  -- what is found has the number of the type, and so comes from its definition
  obtain ⟨⟨id, other⟩, otherWaiting, v, vInside, vSame, isOther⟩ :=
    exists_of_forall₂_left isResolved.flip (List.mem_of_find?_eq_some isFound)
  have sameId : found.id = t.id := by simpa using List.find?_some isFound
  have isT : v = t := List.inj_on_of_nodup_map h.ids vInside member
    ((label_of_resolveType isOther).1.symm.trans sameId)
  subst isT
  rw [isFound, Option.getD_some]
  exact ⟨other, vSame ▸ otherWaiting, isOther⟩

/-- The types of a schema are those of the outline, each of them resolved. -/
theorem exists_resolve_iff (h : outline.Pending) (types : scope.types = outline.declared)
    {declared : List ComplexType} :
    (∃ resolved, scope.resolve outline.pending = .ok resolved ∧
        outline.declared.map (fun t => (resolved.find? (·.id == t.id)).getD t) = declared) ↔
      List.Forall₂ (ResolvesTo scope outline) outline.declared declared := by
  have own {resolved : List ComplexType} (isResolved : scope.resolve outline.pending = .ok resolved) :
      List.Forall₂ (ResolvesTo scope outline) outline.declared
        (outline.declared.map fun t => (resolved.find? (·.id == t.id)).getD t) := by
    rw [List.forall₂_map_right_iff, List.forall₂_same]
    exact fun _ member => h.resolvesTo_of_resolve types isResolved member
  constructor
  · rintro ⟨resolved, isResolved, rfl⟩
    exact own isResolved
  · intro related
    have each : ∀ entry ∈ outline.pending, ∃ r, ∃ t ∈ outline.declared, t.id = entry.1 ∧
        scope.resolveType t entry.2 = .ok r := by
      intro entry member
      obtain ⟨t, inside, same⟩ :=
        List.mem_map.mp (h.pending.subset (List.mem_map_of_mem (f := (·.1)) member))
      obtain ⟨r, _, item, waiting, isType⟩ := exists_of_forall₂_left related inside
      obtain rfl := h.unique waiting (show (t.id, entry.2) ∈ outline.pending from same ▸ member)
      exact ⟨r, t, inside, same, isType⟩
    obtain ⟨resolved, all⟩ := exists_forall₂_iff.mpr each
    have isResolved := (h.resolve_eq_ok_iff types).mpr all
    exact ⟨resolved, isResolved,
      List.right_unique_forall₂' h.rightUnique (own isResolved) related⟩

end Outline.Pending

/-! ### Schemas of definitions -/

/-- A schema is what the members of a definition say. -/
structure Drafted (source : Label) (members : List (String × Json)) (outline : Outline)
    (s : Schema) : Prop where
  name : Json.member? members "name" = some s.name
  enumerations : ∃ items, itemsUnder (.object members) "enums" = .ok items ∧
    declareEnumerations source [] items = .ok s.enumerations
  types : List.Forall₂ (ResolvesTo ⟨outline.declared, s.enumerations⟩ outline)
    outline.declared s.declared
  root : ∃ root rootName rootType, Json.member? members "root" = some root ∧
    require root "element" (.text (source.shown ++ " root")) = .ok s.rootElement ∧
    require root "type" (.text (source.shown ++ " root")) = .ok rootName ∧
    findComplex outline.declared rootName none = some rootType ∧ rootType.id = s.rootType
  undeclared : s.undeclared = []
  package : s.package = (Json.member? members "package").getD .null

theorem require_object_eq_ok_iff {members : List (String × Json)} {key : String} {location : Label}
    {value : Json} :
    require (.object members) key location = .ok value ↔ Json.member? members key = some value := by
  rw [require]
  cases Json.member? members key with
  | none => simp
  | some found => simp

theorem pending_of_declareUnder {source : Label} {members : List (String × Json)} {outline : Outline}
    (declared : declareUnder source 0 none members = .ok outline) : outline.Pending := by
  constructor
  · rw [(outlined_of_declareUnder declared).numbered]
    exact List.nodup_range'
  · obtain ⟨_, _, numbers⟩ := exists_sites_of_declareUnder declared
    exact numbers.pending

theorem ofDefinition_eq_ok_iff {source : Label} {members : List (String × Json)} {s : Schema} :
    ofDefinition (.object members) source = .ok s ↔
      ∃ outline, declareUnder source 0 none members = .ok outline ∧
        Drafted source members outline s := by
  unfold ofDefinition
  simp only [bind_eq_ok_iff, require_object_eq_ok_iff]
  constructor
  · rintro ⟨name, isName, items, isItems, enumerations, isEnumerations, outline, isOutline, resolved,
      isResolved, root, isRoot, rootElement, isElement, rootName, isRootName, defined⟩
    split at defined
    · cases defined
    · rename_i rootType found
      obtain rfl := Except.ok.inj defined
      refine ⟨outline, isOutline, isName, ⟨items, isItems, isEnumerations⟩, ?_,
        ⟨root, rootName, rootType, isRoot, isElement, isRootName, found, rfl⟩, rfl, rfl⟩
      exact ((pending_of_declareUnder isOutline).exists_resolve_iff rfl).mp ⟨resolved, isResolved, rfl⟩
  · rintro ⟨outline, isOutline, drafted⟩
    obtain ⟨items, isItems, isEnumerations⟩ := drafted.enumerations
    obtain ⟨resolved, isResolved, isDeclared⟩ :=
      ((pending_of_declareUnder isOutline).exists_resolve_iff rfl).mpr drafted.types
    obtain ⟨root, rootName, rootType, isRoot, isElement, isRootName, found, isRootType⟩ := drafted.root
    refine ⟨s.name, drafted.name, items, isItems, s.enumerations, isEnumerations, outline, isOutline,
      resolved, isResolved, root, isRoot, s.rootElement, isElement, rootName, isRootName, ?_⟩
    rw [found]
    simp only [isRootType, isDeclared, optional?, membersOf, ← drafted.package, ← drafted.undeclared]
    rfl

/-! ### Enumerations -/

def DeclaresEnumeration (source : Label) (item : Json) (e : Enumerated) : Prop :=
  require item "name" source = .ok e.name ∧ valuesOf item e.name source = .ok e.values ∧
    lookupKey e.name = .ok e.name

theorem lookupKey_eq_ok_iff {name key : Label} :
    lookupKey name = .ok key ↔ key = name ∧ lookupKey name = .ok name := by
  cases name <;> simp [lookupKey, eq_comm]

theorem declareEnumerations_cons_eq_ok_iff {source : Label} {declared result : List Enumerated}
    {item : Json} {items : List Json} :
    declareEnumerations source declared (item :: items) = .ok result ↔
      ∃ e, DeclaresEnumeration source item e ∧ declared.any (·.name.same e.name) = false ∧
        declareEnumerations source (declared ++ [e]) items = .ok result := by
  rw [declareEnumerations]
  simp only [bind_eq_ok_iff]
  constructor
  · rintro ⟨name, isName, values, isValues, key, isKey, rest⟩
    obtain ⟨rfl, isKey⟩ := lookupKey_eq_ok_iff.mp isKey
    split at rest
    · cases rest
    · rename_i free
      exact ⟨⟨key, values⟩, ⟨isName, isValues, isKey⟩, by simpa using free, rest⟩
  · rintro ⟨e, ⟨isName, isValues, isKey⟩, free, rest⟩
    refine ⟨e.name, isName, e.values, isValues, e.name, isKey, ?_⟩
    rw [if_neg (by simp [free])]
    exact rest

theorem declares_of_declareEnumerations {source : Label} {declared result : List Enumerated}
    {items : List Json} (given : declareEnumerations source declared items = .ok result) :
    ∃ new, result = declared ++ new ∧ List.Forall₂ (DeclaresEnumeration source) items new := by
  induction items generalizing declared with
  | nil =>
    rw [declareEnumerations] at given
    exact ⟨[], by rw [List.append_nil, Except.ok.inj given], .nil⟩
  | cons item items ih =>
    obtain ⟨e, declares, _, rest⟩ := declareEnumerations_cons_eq_ok_iff.mp given
    obtain ⟨new, rfl, others⟩ := ih rest
    exact ⟨e :: new, by simp, .cons declares others⟩

theorem declareEnumerations_eq_ok {source : Label} {declared new : List Enumerated}
    {items : List Json} (declares : List.Forall₂ (DeclaresEnumeration source) items new)
    (texts : ∀ e ∈ new, ∃ name, e.name = .text name)
    (distinct : ((declared ++ new).map (·.name)).Nodup) :
    declareEnumerations source declared items = .ok (declared ++ new) := by
  induction declares generalizing declared with
  | nil => rw [declareEnumerations, List.append_nil]
  | @cons item e items new here _ ih =>
    obtain ⟨⟨name, isName⟩, others⟩ := List.forall_mem_cons.mp texts
    have shifted : declared ++ e :: new = (declared ++ [e]) ++ new := by simp
    rw [shifted] at distinct ⊢
    refine declareEnumerations_cons_eq_ok_iff.mpr ⟨e, here, ?_, ih others distinct⟩
    rw [List.any_eq_false]
    intro other member same
    rw [isName, same_text_iff, ← isName] at same
    rw [List.map_append, List.map_append, List.map_singleton] at distinct
    have apart := (List.nodup_append.mp (List.nodup_append.mp distinct).1).2.2
    exact apart other.name (List.mem_map_of_mem member) e.name List.mem_cons_self same

end XmlRecords.Schema
