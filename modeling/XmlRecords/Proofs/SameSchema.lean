import XmlRecords.Proofs.Rearrangement

/-!
Schemas that agree but for the numbers of their types and the order of types and enumerations. A
definition with its types and enumerations in another order gives such a schema.
-/

set_option autoImplicit false
set_option relaxedAutoImplicit false

namespace XmlRecords.Schema

/-! ### Agreement -/

def KnownAs (types : List ComplexType) (id : TypeId) (name : Label) : Prop :=
  ∃ t ∈ types, t.id = id ∧ t.qualifiedName = name

/-- One simple type, or complex types of one qualified name. -/
inductive DeclaredType.Same (types types' : List ComplexType) : DeclaredType → DeclaredType → Prop
  | simple {type : DeclaredType} : type.IsSimple → Same types types' type type
  | complex {id id' : TypeId} {name : Label} : KnownAs types id name → KnownAs types' id' name →
      Same types types' (.complex id) (.complex id')

structure Element.Same (types types' : List ComplexType) (e e' : Element) : Prop where
  name : e.name = e'.name
  type : e.type.Same types types' e'.type
  occurrence : e.occurrence = e'.occurrence

/-- Types with the same attributes and with the same elements in the same order. -/
structure ComplexType.Same (types types' : List ComplexType) (t t' : ComplexType) : Prop where
  attributes : t.attributes = t'.attributes
  elements : List.Forall₂ (Element.Same types types') t.elements t'.elements

/-- Schemas with the same enumerations, the same root and, under each qualified name, the same
type. -/
structure Same (s s' : Schema) : Prop where
  name : s.name = s'.name
  package : s.package = s'.package
  enumerations : s.enumerations.Perm s'.enumerations
  distinct : (s.declared.map (·.qualifiedName)).Nodup
  names : (s.declared.map (·.qualifiedName)).Perm (s'.declared.map (·.qualifiedName))
  rootElement : s.rootElement = s'.rootElement
  rootType : ∃ name, KnownAs s.declared s.rootType name ∧ KnownAs s'.declared s'.rootType name
  types : ∀ t ∈ s.declared, ∀ t' ∈ s'.declared, t.qualifiedName = t'.qualifiedName →
    t.Same s.declared s'.declared t'

theorem KnownAs.of_mem {types : List ComplexType} {t : ComplexType} (member : t ∈ types) :
    KnownAs types t.id t.qualifiedName := ⟨t, member, rfl, rfl⟩

theorem KnownAs.congr {types types' : List ComplexType}
    (same : List.Forall₂ (fun t t' => t'.id = t.id ∧ t'.qualifiedName = t.qualifiedName) types types')
    {id : TypeId} {name : Label} (known : KnownAs types id name) : KnownAs types' id name := by
  obtain ⟨t, member, rfl, rfl⟩ := known
  obtain ⟨t', member', isId, isName⟩ := exists_of_forall₂_left same member
  exact ⟨t', member', isId, isName⟩

theorem DeclaredType.Same.imp {types types' wider wider' : List ComplexType} {a b : DeclaredType}
    (h : a.Same types types' b)
    (left : ∀ id name, KnownAs types id name → KnownAs wider id name)
    (right : ∀ id name, KnownAs types' id name → KnownAs wider' id name) : a.Same wider wider' b := by
  cases h with
  | simple isSimple => exact .simple isSimple
  | complex known known' => exact .complex (left _ _ known) (right _ _ known')

theorem ComplexType.Same.imp {types types' wider wider' : List ComplexType} {t t' : ComplexType}
    (h : t.Same types types' t')
    (left : ∀ id name, KnownAs types id name → KnownAs wider id name)
    (right : ∀ id name, KnownAs types' id name → KnownAs wider' id name) : t.Same wider wider' t' :=
  ⟨h.attributes, h.elements.imp fun _ _ e => ⟨e.name, e.type.imp left right, e.occurrence⟩⟩

/-! ### Scopes that agree -/

/-- Scopes with the same types and enumerations in whatever order. -/
structure Scope.Alike (scope scope' : Scope) : Prop where
  types : Schema.Alike scope.types scope'.types
  enumerations : scope.enumerations.Perm scope'.enumerations
  distinct : (scope.enumerations.map (·.name)).Nodup
  texts : ∀ e ∈ scope.enumerations, ∃ name, e.name = .text name

namespace Scope.Alike

variable {scope scope' : Scope}

theorem enumerated?_eq (alike : scope.Alike scope') (name : Label) :
    scope.enumerated? name = scope'.enumerated? name := by
  have found := @find?_map_eq _ _ _ id id (fun e : Enumerated => e.name.same name)
    (fun e => e.name.same name) scope.enumerations scope'.enumerations
    (fun e member sought => ⟨e, alike.enumerations.mem_iff.mp member, sought, rfl⟩)
    (fun e member sought => ⟨e, alike.enumerations.mem_iff.mpr member, sought, rfl⟩)
    fun d hd e he soughtD soughtE => List.inj_on_of_nodup_map alike.distinct hd he
      (eq_of_texts_same (alike.texts d hd) (alike.texts e he) soughtD soughtE)
  rwa [Option.map_id_fun, id_eq, id_eq] at found

theorem simpleType_eq (alike : scope.Alike scope') (name location : Label) :
    scope.simpleType name location = scope'.simpleType name location := by
  simp only [Scope.simpleType, alike.enumerated?_eq]

theorem resolveAttribute_eq (alike : scope.Alike scope') {owner owner' : ComplexType}
    (same : owner.qualifiedName = owner'.qualifiedName) (item : Json) :
    scope.resolveAttribute owner item = scope'.resolveAttribute owner' item := by
  simp only [Scope.resolveAttribute, alike.simpleType_eq, same]

theorem exists_elementType (alike : scope.Alike scope') {owner owner' : ComplexType}
    (member : owner ∈ scope.types) (member' : owner' ∈ scope'.types)
    (same : owner.qualifiedName = owner'.qualifiedName) {name : Label} {type : DeclaredType}
    (found : scope.elementType name owner = .ok type) :
    ∃ type', scope'.elementType name owner' = .ok type' ∧
      type.Same scope.types scope'.types type' := by
  unfold Scope.elementType at found ⊢
  obtain ⟨key, isKey, found⟩ := bind_eq_ok_iff.mp found
  simp only [isKey, bind, Except.bind]
  split at found
  · obtain rfl := Except.ok.inj found
    exact ⟨_, rfl, .simple (.inl trivial)⟩
  · have complex := alike.types.findComplex_eq key
      (.inr ⟨owner, member, owner', member', rfl, rfl, same⟩)
    split at found
    · rename_i t isComplex
      obtain rfl := Except.ok.inj found
      rw [isComplex, Option.map_some, eq_comm, Option.map_eq_some_iff] at complex
      obtain ⟨t', isComplex', sameName⟩ := complex
      simp only [isComplex']
      exact ⟨_, rfl, .complex (.of_mem (mem_of_findComplex isComplex))
        (sameName ▸ .of_mem (mem_of_findComplex isComplex'))⟩
    · rename_i notComplex
      rw [notComplex, Option.map_none, eq_comm, Option.map_eq_none_iff] at complex
      simp only [complex, ← alike.enumerated?_eq]
      split at found
      · obtain rfl := Except.ok.inj found
        exact ⟨_, rfl, .simple (.inl trivial)⟩
      · cases found

theorem exists_resolveElement (alike : scope.Alike scope') {owner owner' : ComplexType}
    (member : owner ∈ scope.types) (member' : owner' ∈ scope'.types)
    (same : owner.qualifiedName = owner'.qualifiedName) {item : Json} {e : Element}
    (resolved : scope.resolveElement owner item = .ok e) :
    ∃ e', scope'.resolveElement owner' item = .ok e' ∧ e.Same scope.types scope'.types e' := by
  unfold Scope.resolveElement at resolved ⊢
  simp only [bind_eq_ok_iff, pure, Except.pure, Except.ok.injEq] at resolved
  obtain ⟨name, isName, typeName, isTypeName, least, isLeast, greatest, isGreatest, type, isType,
    rfl⟩ := resolved
  obtain ⟨type', isType', sameType⟩ := alike.exists_elementType member member' same isType
  rw [same] at isName isTypeName isLeast isGreatest
  simp only [isName, isTypeName, isLeast, isGreatest, isType', bind, Except.bind, pure, Except.pure]
  exact ⟨_, rfl, rfl, sameType, rfl⟩

theorem exists_resolveType (alike : scope.Alike scope') {t t' resolved : ComplexType}
    (member : t ∈ scope.types) (member' : t' ∈ scope'.types)
    (same : t.qualifiedName = t'.qualifiedName) {item item' : Json}
    (attributes : itemsUnder item "attributes" = itemsUnder item' "attributes")
    (elements : itemsUnder item "elements" = itemsUnder item' "elements")
    (found : scope.resolveType t item = .ok resolved) :
    ∃ resolved', scope'.resolveType t' item' = .ok resolved' ∧
      resolved.Same scope.types scope'.types resolved' := by
  have sameAttribute : scope.resolveAttribute t = scope'.resolveAttribute t' :=
    funext fun _ => alike.resolveAttribute_eq same _
  unfold Scope.resolveType at found ⊢
  simp only [bind_eq_ok_iff, pure, Except.pure, Except.ok.injEq] at found
  obtain ⟨as, isAs, resolvedAs, ofAs, es, isEs, resolvedEs, ofEs, rfl⟩ := found
  have each : ∀ e ∈ es, ∃ e', scope'.resolveElement t' e = .ok e' := by
    intro e inside
    obtain ⟨r, _, isR⟩ := exists_of_forall₂_left (mapM_eq_ok_iff.mp ofEs) inside
    obtain ⟨r', isR', _⟩ := alike.exists_resolveElement member member' same isR
    exact ⟨r', isR'⟩
  obtain ⟨resolvedEs', ofEs'⟩ := exists_mapM_eq_ok_iff.mpr each
  rw [attributes] at isAs
  rw [elements] at isEs
  rw [sameAttribute] at ofAs
  simp only [isAs, isEs, ofAs, ofEs', bind, Except.bind, pure, Except.pure]
  refine ⟨_, rfl, rfl, ?_⟩
  refine (forall₂_comp (mapM_eq_ok_iff.mp ofEs).flip (mapM_eq_ok_iff.mp ofEs')).imp ?_
  rintro r r' ⟨item, isR, isR'⟩
  obtain ⟨e', isE', sameElement⟩ := alike.exists_resolveElement member member' same isR
  obtain rfl := Except.ok.inj (isE'.symm.trans isR')
  exact sameElement

end Scope.Alike

/-! ### Drafts that agree -/

theorem labels_of_resolvesTo {scope : Scope} {outline : Outline} {types : List ComplexType}
    (resolved : List.Forall₂ (ResolvesTo scope outline) outline.declared types) :
    List.Forall₂ (fun t r => r.id = t.id ∧ r.qualifiedName = t.qualifiedName) outline.declared types :=
  resolved.imp fun _ _ ⟨_, _, found⟩ => label_of_resolveType found

theorem Drafted.labels {source : Label} {members : List (String × Json)} {outline : Outline}
    {s : Schema} (drafted : Drafted source members outline s) :
    List.Forall₂ (fun t r => r.id = t.id ∧ r.qualifiedName = t.qualifiedName) outline.declared
      s.declared := labels_of_resolvesTo drafted.types

theorem Drafted.qualifiedNames {source : Label} {members : List (String × Json)} {outline : Outline}
    {s : Schema} (drafted : Drafted source members outline s) :
    outline.declared.map (·.qualifiedName) = s.declared.map (·.qualifiedName) :=
  map_eq_of_forall₂ drafted.labels fun _ _ same => same.2

theorem SameUnder.exists_enumerations {members members' : List (String × Json)} {source : Label}
    {items : List Json} {es : List Enumerated} (h : SameUnder "enums" List.Perm members members')
    (texts : ∀ e ∈ es, ∃ name, e.name = .text name) (distinct : (es.map (·.name)).Nodup)
    (isItems : itemsUnder (.object members) "enums" = .ok items)
    (declared : declareEnumerations source [] items = .ok es) :
    ∃ items' es', itemsUnder (.object members') "enums" = .ok items' ∧
      declareEnumerations source [] items' = .ok es' ∧ es.Perm es' := by
  rcases h with same | ⟨listed, listed', isListed, isListed', perm⟩
  · exact ⟨items, es, itemsUnder_congr same ▸ isItems, declared, .refl es⟩
  · simp only [itemsUnder, optional?, membersOf, isListed, isListed', iterate] at isItems ⊢
    obtain rfl := Except.ok.inj isItems
    obtain ⟨new, rfl, declares⟩ := declares_of_declareEnumerations declared
    obtain ⟨new', declares', permNew⟩ := List.perm_comp_forall₂ perm.symm declares
    refine ⟨listed', new', rfl, ?_, permNew.symm⟩
    have given := @declareEnumerations_eq_ok source [] new' listed' declares'
      (fun e member => texts e (permNew.mem_iff.mp member))
      (by simpa using (permNew.map (·.name)).nodup_iff.mpr distinct)
    simpa using given

end XmlRecords.Schema
