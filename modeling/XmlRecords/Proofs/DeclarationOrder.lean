import XmlRecords.Proofs.Passing

/-!
The order of declarations does not matter to the loader: a definition with its types and enumerations
in another order is accepted too, and gives the same schema but for the order.
-/

set_option autoImplicit false
set_option relaxedAutoImplicit false

namespace XmlRecords.Schema

/-! ### Drafts in another order -/

variable {source : Label} {members members' : List (String × Json)} {outline outline' : Outline}

/-- Outlines of the same sites, with the enumerations that names in them stand for. -/
structure Counterparts (outline outline' : Outline) (es es' : List Enumerated) : Prop where
  pending : outline.Pending
  pending' : outline'.Pending
  alike : Scope.Alike ⟨outline.declared, es⟩ ⟨outline'.declared, es'⟩
  sites : ∀ t ∈ outline.declared, ∀ t' ∈ outline'.declared, t.qualifiedName = t'.qualifiedName →
    ∃ site, t.SitsAt none outline site ∧ t'.SitsAt none outline' site

namespace Counterparts

variable {es es' : List Enumerated} {types types' : List ComplexType}

theorem exists_resolvesTo (h : Counterparts outline outline' es es') {t t' r : ComplexType}
    (member : t ∈ outline.declared) (member' : t' ∈ outline'.declared)
    (same : t.qualifiedName = t'.qualifiedName)
    (found : ResolvesTo ⟨outline.declared, es⟩ outline t r) :
    ∃ r', ResolvesTo ⟨outline'.declared, es'⟩ outline' t' r' ∧
      r.Same outline.declared outline'.declared r' := by
  obtain ⟨site, sits, sits'⟩ := h.sites t member t' member' same
  obtain ⟨item, waiting, isType⟩ := found
  obtain ⟨own, ownWaiting, attributes, elements⟩ := sits.pending
  obtain rfl := h.pending.unique waiting ownWaiting
  obtain ⟨item', waiting', attributes', elements'⟩ := sits'.pending
  obtain ⟨r', isType', sameContent⟩ := h.alike.exists_resolveType member member' same
    (attributes.trans attributes'.symm) (elements.trans elements'.symm) isType
  exact ⟨r', ⟨item', waiting', isType'⟩, sameContent⟩

theorem exists_resolved (h : Counterparts outline outline' es es')
    (resolved : List.Forall₂ (ResolvesTo ⟨outline.declared, es⟩ outline) outline.declared types) :
    ∃ types', List.Forall₂ (ResolvesTo ⟨outline'.declared, es'⟩ outline') outline'.declared
      types' := by
  refine exists_forall₂_iff.mpr fun t' member' => ?_
  obtain ⟨t, member, same⟩ := h.alike.types.exists_counterpart' member'
  obtain ⟨r, _, found⟩ := exists_of_forall₂_left resolved member
  obtain ⟨r', found', _⟩ := h.exists_resolvesTo member member' same found
  exact ⟨r', found'⟩

theorem same_of_resolved (h : Counterparts outline outline' es es')
    (resolved : List.Forall₂ (ResolvesTo ⟨outline.declared, es⟩ outline) outline.declared types)
    (resolved' : List.Forall₂ (ResolvesTo ⟨outline'.declared, es'⟩ outline') outline'.declared types')
    {r r' : ComplexType} (inside : r ∈ types) (inside' : r' ∈ types')
    (same : r.qualifiedName = r'.qualifiedName) : r.Same types types' r' := by
  obtain ⟨t, member, found⟩ := exists_of_forall₂_left resolved.flip inside
  obtain ⟨t', member', found'⟩ := exists_of_forall₂_left resolved'.flip inside'
  have sameName : t.qualifiedName = t'.qualifiedName := by
    obtain ⟨_, _, isType⟩ := found
    obtain ⟨_, _, isType'⟩ := found'
    rw [← (label_of_resolveType isType).2, ← (label_of_resolveType isType').2, same]
  obtain ⟨other, isOther, sameContent⟩ := h.exists_resolvesTo member member' sameName found
  obtain rfl := h.pending'.rightUnique isOther found'
  exact sameContent.imp (fun _ _ known => known.congr (labels_of_resolvesTo resolved))
    fun _ _ known => known.congr (labels_of_resolvesTo resolved')

end Counterparts

theorem exists_counterparts {es es' : List Enumerated}
    (types : SameUnder "types" Reordered members members') (apart : NamesApart (.object members))
    (declared : declareUnder source 0 none members = .ok outline)
    (distinct : (outline.declared.map (·.qualifiedName)).Nodup)
    (texts : ∀ t ∈ outline.declared, ∃ name, t.qualifiedName = .text name)
    (perm : es.Perm es') (distinctNames : (es.map (·.name)).Nodup)
    (textNames : ∀ e ∈ es, ∃ name, e.name = .text name) :
    ∃ outline', declareUnder source 0 none members' = .ok outline' ∧
      Counterparts outline outline' es es' := by
  obtain ⟨sites, isSites, numbers⟩ := exists_sites_of_declareUnder declared
  obtain ⟨sites', isSites', permSites⟩ := types.exists_sites isSites
  obtain ⟨outline', declared', numbers'⟩ := exists_outline_of_sitesUnder source 0 none isSites'
  have pending := pending_of_declareUnder declared
  have pending' := pending_of_declareUnder declared'
  have alike := numbers.alike numbers' pending pending' permSites (apart sites isSites) distinct texts
  exact ⟨outline', declared', pending, pending', ⟨alike, perm, distinctNames, textNames⟩,
    fun t member t' member' same =>
      numbers.exists_site_both numbers' permSites distinct member member' same⟩

theorem exists_drafted {s : Schema} (checked : s.Checked)
    (rest : ∀ key, key ≠ "types" → key ≠ "enums" →
      Json.member? members key = Json.member? members' key)
    (types : SameUnder "types" Reordered members members')
    (enumerations : SameUnder "enums" List.Perm members members')
    (apart : NamesApart (.object members))
    (declared : declareUnder source 0 none members = .ok outline)
    (drafted : Drafted source members outline s) :
    ∃ outline' s', declareUnder source 0 none members' = .ok outline' ∧
      Drafted source members' outline' s' ∧ s.Same s' := by
  obtain ⟨items, isItems, isEnumerations⟩ := drafted.enumerations
  obtain ⟨items', es', isItems', isEnumerations', perm⟩ :=
    enumerations.exists_enumerations checked.enumerations checked.enumerationNames isItems
      isEnumerations
  have names := drafted.qualifiedNames
  have texts : ∀ t ∈ outline.declared, ∃ name, t.qualifiedName = .text name := by
    intro t member
    obtain ⟨r, inside, _, same⟩ := exists_of_forall₂_left drafted.labels member
    rw [← same]
    exact (checked.types r inside).name
  obtain ⟨outline', declared', both⟩ := exists_counterparts types apart declared
    (names ▸ checked.typeNames) texts perm checked.enumerationNames checked.enumerations
  obtain ⟨types', resolved'⟩ := both.exists_resolved drafted.types
  obtain ⟨root, rootName, rootType, isRoot, isElement, isRootName, found, isRootType⟩ := drafted.root
  have sameRoot := both.alike.types.findComplex_eq rootName (.inl ⟨rfl, rfl⟩)
  rw [found, Option.map_some, eq_comm, Option.map_eq_some_iff] at sameRoot
  obtain ⟨rootType', found', sameRootName⟩ := sameRoot
  have drafted' : Drafted source members' outline'
      ⟨s.name, s.rootElement, rootType'.id, types', [], es', s.package⟩ := {
    name := rest "name" (by decide) (by decide) ▸ drafted.name
    enumerations := ⟨items', isItems', isEnumerations'⟩
    types := resolved'
    root := ⟨root, rootName, rootType', rest "root" (by decide) (by decide) ▸ isRoot, isElement,
      isRootName, found', rfl⟩
    undeclared := rfl
    package := rest "package" (by decide) (by decide) ▸ drafted.package }
  have knownRoot : KnownAs s.declared s.rootType rootType.qualifiedName :=
    isRootType ▸ (KnownAs.of_mem (mem_of_findComplex found)).congr drafted.labels
  have knownRoot' : KnownAs types' rootType'.id rootType.qualifiedName :=
    sameRootName ▸ (KnownAs.of_mem (mem_of_findComplex found')).congr drafted'.labels
  refine ⟨outline', _, declared', drafted', rfl, rfl, perm, checked.typeNames, ?_, rfl,
    ⟨_, knownRoot, knownRoot'⟩, ?_⟩
  · rw [← names, ← drafted'.qualifiedNames]
    exact both.alike.types.names
  · exact fun r inside r' inside' same =>
      both.same_of_resolved drafted.types resolved' inside inside' same

/-! ### Definitions in another order -/

theorem Drafted.closed {s : Schema} (declared : declareUnder source 0 none members = .ok outline)
    (drafted : Drafted source members outline s) : s.Closed := by
  have ids : s.declared.map (·.id) = outline.declared.map (·.id) :=
    (map_eq_of_forall₂ drafted.labels fun _ _ same => same.1).symm
  refine ⟨drafted.undeclared, ids ▸ (pending_of_declareUnder declared).ids, ?_⟩
  intro r inside
  obtain ⟨_, _, _, _, found⟩ := exists_of_forall₂_left drafted.types.flip inside
  exact ids ▸ within_of_resolveType found

theorem Drafted.plain {s : Schema} (drafted : Drafted source members outline s) : s.Plain := by
  intro r inside
  obtain ⟨_, _, _, _, found⟩ := exists_of_forall₂_left drafted.types.flip inside
  exact (regular_of_resolveType found).attributes

theorem load_object_eq_ok_iff {s : Schema} :
    load (.object members) source = .ok s ↔ ∃ outline,
      declareUnder source 0 none members = .ok outline ∧ Drafted source members outline s ∧
        s.Passes := by
  unfold load
  simp only [bind_eq_ok_iff, ofDefinition_eq_ok_iff, pure, Except.pure, Except.ok.injEq]
  constructor
  · rintro ⟨_, ⟨outline, declared, drafted⟩, _, valid, rfl⟩
    exact ⟨outline, declared, drafted, (validate_eq_ok_iff_passes drafted.plain).mp valid⟩
  · rintro ⟨outline, declared, drafted, passes⟩
    exact ⟨s, ⟨outline, declared, drafted⟩, (),
      (validate_eq_ok_iff_passes drafted.plain).mpr passes, rfl⟩

theorem exists_load_of_object {s : Schema}
    (rest : ∀ key, key ≠ "types" → key ≠ "enums" →
      Json.member? members key = Json.member? members' key)
    (types : SameUnder "types" Reordered members members')
    (enumerations : SameUnder "enums" List.Perm members members')
    (apart : NamesApart (.object members)) (loaded : load (.object members) source = .ok s) :
    ∃ s', load (.object members') source = .ok s' ∧ s.Same s' := by
  obtain ⟨outline, declared, drafted, passes⟩ := load_object_eq_ok_iff.mp loaded
  obtain ⟨outline', s', declared', drafted', same⟩ :=
    exists_drafted passes.checked rest types enumerations apart declared drafted
  have passes' := same.passes (drafted.closed declared) (drafted'.closed declared') drafted.plain
    passes
  exact ⟨s', load_object_eq_ok_iff.mpr ⟨outline', declared', drafted', passes'⟩, same⟩

theorem exists_load_of_rearranged {definition definition' : Json} {s : Schema}
    (rearranged : Rearranged definition definition') (apart : NamesApart definition)
    (loaded : load definition source = .ok s) :
    ∃ s', load definition' source = .ok s' ∧ s.Same s' := by
  cases rearranged with
  | refl =>
    cases definition with
    | object members => exact exists_load_of_object (fun _ _ _ => rfl) (.inl rfl) (.inl rfl) apart loaded
    | _ => cases loaded
  | object rest types enumerations => exact exists_load_of_object rest types enumerations apart loaded

/-- A definition with its types and enumerations in another order is accepted exactly if the first is,
and gives the same schema but for the order, unless names of types nested in one type are equal but
shown differently. -/
theorem load_rearranged {definition definition' : Json}
    (rearranged : Rearranged definition definition') (apart : NamesApart definition)
    (source : Label) :
    ((∃ s, load definition source = .ok s) ↔ ∃ s', load definition' source = .ok s') ∧
      ∀ s s', load definition source = .ok s → load definition' source = .ok s' → s.Same s' := by
  refine ⟨⟨?_, ?_⟩, ?_⟩
  · rintro ⟨s, loaded⟩
    obtain ⟨s', loaded', _⟩ := exists_load_of_rearranged rearranged apart loaded
    exact ⟨s', loaded'⟩
  · rintro ⟨s', loaded'⟩
    obtain ⟨s, loaded, _⟩ :=
      exists_load_of_rearranged rearranged.symm (rearranged.namesApart apart) loaded'
    exact ⟨s, loaded⟩
  · intro s s' loaded loaded'
    obtain ⟨other, isOther, same⟩ := exists_load_of_rearranged rearranged apart loaded
    obtain rfl := Except.ok.inj (isOther.symm.trans loaded')
    exact same

/-! ### Shelves with parts -/

def innerType (name : Label) (elements : List Json) : Json :=
  .object [("name", name), ("elements", .array elements)]

/-- The definition of shelves with a part, which is of one of the inner types. -/
def partedShelf (part : Label) (inner : List Json) : Json :=
  .object [
    ("name", .text "shelf"),
    ("types", .array [.object [
      ("name", .text "Shelf"),
      ("types", .array inner),
      ("elements", .array [.object [("name", .text "part"), ("type", part)]])]]),
    ("root", .object [("element", .text "shelf"), ("type", .text "Shelf")])]

theorem rearranged_partedShelf (part : Label) {inner inner' : List Json}
    (reordered : Reordered inner inner') :
    Rearranged (partedShelf part inner) (partedShelf part inner') := by
  refine .object (fun key notTypes _ => ?_) (.inr ⟨_, _, rfl, rfl, ?_⟩) (.inl rfl)
  · simp [Json.member?, List.find?_cons, Ne.symm notTypes]
  · refine .inside [] (fun key notTypes => ?_) rfl rfl reordered
    simp [Json.member?, List.find?_cons, Ne.symm notTypes]

/-- Shelves with boards and brackets are the same with brackets and boards. -/
theorem load_rearranged_boards :
    let boards := innerType (.text "Board") []
    let brackets := innerType (.text "Bracket") []
    let source := .text "shelf"
    Rearranged (partedShelf (.text "Board") [boards, brackets])
      (partedShelf (.text "Board") [brackets, boards]) ∧
    NamesApart (partedShelf (.text "Board") [boards, brackets]) ∧
    ∃ s s', load (partedShelf (.text "Board") [boards, brackets]) source = .ok s ∧
      load (partedShelf (.text "Board") [brackets, boards]) source = .ok s' ∧ s.Same s' := by
  intro boards brackets source
  have rearranged := rearranged_partedShelf (.text "Board") (.swap boards brackets [])
  have apart : NamesApart (partedShelf (.text "Board") [boards, brackets]) := by
    intro sites found
    obtain rfl := Option.some.inj found
    exact shownApart_of_texts (by simp)
  obtain ⟨accepted, same⟩ := load_rearranged rearranged apart source
  obtain ⟨s, loaded⟩ : ∃ s, load (partedShelf (.text "Board") [boards, brackets]) source = .ok s :=
    ⟨_, rfl⟩
  obtain ⟨s', loaded'⟩ := accepted.mp ⟨s, loaded⟩
  exact ⟨rearranged, apart, s, s', loaded, loaded', same s s' loaded loaded'⟩

/-- Inner types named 1 and true are told apart by their qualified names, yet an element of type 1 is
of whichever comes first: the shelf is refused as a part of its own part, or accepted. -/
theorem load_counted_shelves :
    let one := innerType (.integer 1) [.object [("name", .text "back"), ("type", .text "Shelf")]]
    let yes := innerType (.boolean true) []
    let source := .text "shelf"
    Rearranged (partedShelf (.integer 1) [yes, one]) (partedShelf (.integer 1) [one, yes]) ∧
      (∃ s, load (partedShelf (.integer 1) [yes, one]) source = .ok s) ∧
      ¬ ∃ s, load (partedShelf (.integer 1) [one, yes]) source = .ok s := by
  intro one yes source
  refine ⟨rearranged_partedShelf _ (.swap yes one []), ⟨_, rfl⟩, ?_⟩
  rw [← fails_iff]
  exact ⟨_, rfl⟩

end XmlRecords.Schema
