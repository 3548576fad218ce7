import XmlRecords.Proofs.Counterpart
import XmlRecords.Proofs.Drafting

/-!
Definitions that list the same types and enumerations in another order: they have the same sites, and
their types agree but for numbers and order.
-/

set_option autoImplicit false
set_option relaxedAutoImplicit false

namespace XmlRecords.Schema

/-! ### Other orders -/

/-- Types listed in another order, inside one another as well. -/
inductive Reordered : List Json → List Json → Prop
  | refl (items : List Json) : Reordered items items
  | swap (first second : Json) (items : List Json) :
      Reordered (first :: second :: items) (second :: first :: items)
  | cons (item : Json) {items items' : List Json} :
      Reordered items items' → Reordered (item :: items) (item :: items')
  | inside {members members' : List (String × Json)} {types types' : List Json} (items : List Json) :
      (∀ key, key ≠ "types" → Json.member? members key = Json.member? members' key) →
      Json.member? members "types" = some (.array types) →
      Json.member? members' "types" = some (.array types') → Reordered types types' →
      Reordered (.object members :: items) (.object members' :: items)
  | trans {items items' items'' : List Json} :
      Reordered items items' → Reordered items' items'' → Reordered items items''

def SameUnder (key : String) (related : List Json → List Json → Prop)
    (members members' : List (String × Json)) : Prop :=
  Json.member? members key = Json.member? members' key ∨ ∃ items items',
    Json.member? members key = some (.array items) ∧
      Json.member? members' key = some (.array items') ∧ related items items'

/-- Definitions that differ at most in the order of their types, nested ones too, and of their
enumerations. -/
inductive Rearranged : Json → Json → Prop
  | refl (definition : Json) : Rearranged definition definition
  | object {members members' : List (String × Json)} :
      (∀ key, key ≠ "types" → key ≠ "enums" →
        Json.member? members key = Json.member? members' key) →
      SameUnder "types" Reordered members members' → SameUnder "enums" List.Perm members members' →
      Rearranged (.object members) (.object members')

theorem Reordered.symm {items items' : List Json} (h : Reordered items items') :
    Reordered items' items := by
  induction h with
  | refl items => exact .refl items
  | swap first second items => exact .swap second first items
  | cons item _ ih => exact .cons item ih
  | inside items rest isTypes isTypes' _ ih =>
    exact .inside items (fun key other => (rest key other).symm) isTypes' isTypes ih
  | trans _ _ first second => exact .trans second first

theorem SameUnder.symm {key : String} {related : List Json → List Json → Prop}
    (symm : ∀ items items', related items items' → related items' items)
    {members members' : List (String × Json)} (h : SameUnder key related members members') :
    SameUnder key related members' members := by
  rcases h with same | ⟨items, items', is, is', both⟩
  · exact .inl same.symm
  · exact .inr ⟨items', items, is', is, symm items items' both⟩

theorem Rearranged.symm {definition definition' : Json} (h : Rearranged definition definition') :
    Rearranged definition' definition := by
  cases h with
  | refl => exact .refl definition
  | object rest types enumerations =>
    exact .object (fun key notTypes notEnums => (rest key notTypes notEnums).symm)
      (types.symm fun _ _ => Reordered.symm) (enumerations.symm fun _ _ => List.Perm.symm)

/-! ### The same sites -/

theorem itemsUnder_congr {members members' : List (String × Json)} {key : String}
    (same : Json.member? members key = Json.member? members' key) :
    itemsUnder (.object members) key = itemsUnder (.object members') key := by
  simp only [itemsUnder, optional?, membersOf, same]

theorem sitesOfAll_cons_eq_some_iff {enclosing : Option Label} {item : Json} {items : List Json}
    {sites : List Site} :
    sitesOfAll enclosing (item :: items) = some sites ↔ ∃ first rest,
      sitesOf enclosing item = some first ∧ sitesOfAll enclosing items = some rest ∧
        sites = first ++ rest := by
  rw [sitesOfAll]
  cases sitesOf enclosing item with
  | none => simp
  | some first =>
    cases sitesOfAll enclosing items with
    | none => simp
    | some rest => simp [eq_comm]

theorem sitesOf_object_eq_some_iff {enclosing : Option Label} {members : List (String × Json)}
    {sites : List Site} :
    sitesOf enclosing (.object members) = some sites ↔ ∃ name below,
      Json.member? members "name" = some name ∧
        sitesUnder (some (qualified enclosing name)) members = some below ∧
        sites = ⟨enclosing, name, itemsUnder (.object members) "attributes",
          itemsUnder (.object members) "elements"⟩ :: below := by
  rw [sitesOf]
  cases Json.member? members "name" with
  | none => simp
  | some name => simp [eq_comm (a := sites)]

theorem sitesUnder_of_types {enclosing : Option Label} {members : List (String × Json)}
    {types : List Json} (isTypes : Json.member? members "types" = some (.array types)) :
    sitesUnder enclosing members = sitesOfAll enclosing types := by
  rw [sitesUnder_eq, isTypes]
  exact sitesIn.eq_1 enclosing types

theorem Reordered.exists_sites {items items' : List Json} (h : Reordered items items')
    {enclosing : Option Label} {sites : List Site} (found : sitesOfAll enclosing items = some sites) :
    ∃ sites', sitesOfAll enclosing items' = some sites' ∧ sites.Perm sites' := by
  induction h generalizing enclosing sites with
  | refl => exact ⟨sites, found, .refl sites⟩
  | swap first second items =>
    obtain ⟨here, rest, isHere, isRest, rfl⟩ := sitesOfAll_cons_eq_some_iff.mp found
    obtain ⟨next, others, isNext, isOthers, rfl⟩ := sitesOfAll_cons_eq_some_iff.mp isRest
    refine ⟨next ++ (here ++ others), ?_, ?_⟩
    · exact sitesOfAll_cons_eq_some_iff.mpr ⟨next, _, isNext,
        sitesOfAll_cons_eq_some_iff.mpr ⟨here, others, isHere, isOthers, rfl⟩, rfl⟩
    · rw [← List.append_assoc, ← List.append_assoc]
      exact List.perm_append_comm.append_right others
  | cons item _ ih =>
    obtain ⟨here, rest, isHere, isRest, rfl⟩ := sitesOfAll_cons_eq_some_iff.mp found
    obtain ⟨rest', isRest', perm⟩ := ih isRest
    exact ⟨here ++ rest', sitesOfAll_cons_eq_some_iff.mpr ⟨here, rest', isHere, isRest', rfl⟩,
      perm.append_left here⟩
  | @inside members members' types types' items same isTypes isTypes' _ ih =>
    obtain ⟨here, rest, isHere, isRest, rfl⟩ := sitesOfAll_cons_eq_some_iff.mp found
    obtain ⟨name, below, isName, isBelow, rfl⟩ := sitesOf_object_eq_some_iff.mp isHere
    rw [sitesUnder_of_types isTypes] at isBelow
    obtain ⟨below', isBelow', perm⟩ := ih isBelow
    rw [← sitesUnder_of_types isTypes'] at isBelow'
    rw [same "name" (by decide)] at isName
    rw [itemsUnder_congr (same "attributes" (by decide)),
      itemsUnder_congr (same "elements" (by decide))]
    exact ⟨_, sitesOfAll_cons_eq_some_iff.mpr ⟨_, rest,
      sitesOf_object_eq_some_iff.mpr ⟨name, below', isName, isBelow', rfl⟩, isRest, rfl⟩,
      (perm.cons _).append_right rest⟩
  | trans _ _ first second =>
    obtain ⟨sites', found', perm⟩ := first found
    obtain ⟨sites'', found'', perm'⟩ := second found'
    exact ⟨sites'', found'', perm.trans perm'⟩

theorem SameUnder.exists_sites {members members' : List (String × Json)}
    (h : SameUnder "types" Reordered members members') {sites : List Site}
    (found : sitesUnder none members = some sites) :
    ∃ sites', sitesUnder none members' = some sites' ∧ sites.Perm sites' := by
  rcases h with same | ⟨types, types', isTypes, isTypes', reordered⟩
  · rw [sitesUnder_eq, same, ← sitesUnder_eq] at found
    exact ⟨sites, found, .refl sites⟩
  · rw [sitesUnder_of_types isTypes] at found
    rw [sitesUnder_of_types isTypes']
    exact reordered.exists_sites found

/-! ### Sites apart -/

/-- Types nested in one type whose names stand for one name are shown alike. -/
def ShownApart (sites : List Site) : Prop :=
  ∀ a ∈ sites, ∀ b ∈ sites, a.enclosing = b.enclosing → a.enclosing ≠ none → ∀ name : Label,
    a.name.same name = true → b.name.same name = true → a.name.shown = b.name.shown

/-- The sites of the types of a definition, none if one of them has no name. -/
def sitesOfDefinition : Json → Option (List Site)
  | .object members => sitesUnder none members
  | _ => none

/-- No two types of a definition that are nested in one type have names that are equal but shown
differently, such as 1 and true. -/
def NamesApart (definition : Json) : Prop :=
  ∀ sites, sitesOfDefinition definition = some sites → ShownApart sites

theorem ShownApart.perm {sites sites' : List Site} (apart : ShownApart sites)
    (perm : sites.Perm sites') : ShownApart sites' :=
  fun a ha b hb => apart a (perm.mem_iff.mpr ha) b (perm.mem_iff.mpr hb)

theorem shownApart_of_texts {sites : List Site}
    (texts : ∀ site ∈ sites, ∃ name, site.name = .text name) : ShownApart sites := by
  intro a ha b hb _ _ name sameA sameB
  rw [eq_of_texts_same (texts a ha) (texts b hb) sameA sameB]

theorem Rearranged.namesApart {definition definition' : Json}
    (h : Rearranged definition definition') (apart : NamesApart definition) :
    NamesApart definition' := by
  cases h with
  | refl => exact apart
  | object rest types enumerations =>
    intro sites' found'
    obtain ⟨sites, found, perm⟩ := (types.symm fun _ _ => Reordered.symm).exists_sites found'
    exact (apart sites found).perm perm.symm

/-! ### Outlines of the same sites -/

namespace Outline.Numbers

variable {outline outline' : Outline} {sites sites' : List Site}

theorem qualifiedNames (h : outline.Numbers none sites) :
    outline.declared.map (·.qualifiedName) = sites.map (·.qualifiedName) :=
  map_eq_of_forall₂ h.types fun _ _ sits => sits.qualifiedName.symm

theorem exists_site (h : outline.Numbers none sites) {t : ComplexType}
    (member : t ∈ outline.declared) : ∃ site ∈ sites, t.SitsAt none outline site :=
  exists_of_forall₂_left h.types member

theorem exists_site_both (h : outline.Numbers none sites) (h' : outline'.Numbers none sites')
    (perm : sites.Perm sites') (distinct : (outline.declared.map (·.qualifiedName)).Nodup)
    {t t' : ComplexType} (member : t ∈ outline.declared) (member' : t' ∈ outline'.declared)
    (same : t.qualifiedName = t'.qualifiedName) :
    ∃ site, t.SitsAt none outline site ∧ t'.SitsAt none outline' site := by
  obtain ⟨site, inside, sits⟩ := h.exists_site member
  obtain ⟨site', inside', sits'⟩ := h'.exists_site member'
  rw [h.qualifiedNames] at distinct
  obtain rfl := List.inj_on_of_nodup_map distinct inside (perm.mem_iff.mpr inside')
    (sits.qualifiedName.symm.trans (same.trans sits'.qualifiedName))
  exact ⟨site, sits, sits'⟩

theorem alike (h : outline.Numbers none sites) (h' : outline'.Numbers none sites')
    (pending : outline.Pending) (pending' : outline'.Pending) (perm : sites.Perm sites')
    (apart : ShownApart sites) (distinct : (outline.declared.map (·.qualifiedName)).Nodup)
    (texts : ∀ t ∈ outline.declared, ∃ name, t.qualifiedName = .text name) :
    Alike outline.declared outline'.declared where
  ids := pending.ids
  ids' := pending'.ids
  distinct := distinct
  names := by
    rw [h.qualifiedNames, h'.qualifiedNames]
    exact perm.map _
  alike := by
    intro t member t' member' same
    obtain ⟨site, sits, sits'⟩ := h.exists_site_both h' perm distinct member member' same
    refine ⟨sits.name.trans sits'.name.symm, ?_⟩
    rcases sits.inside with ⟨top, outside⟩ | ⟨u, inside, parent, around⟩
    · rcases sits'.inside with ⟨top', _⟩ | ⟨u', _, _, around'⟩
      · exact .inl ⟨top, top'⟩
      · rw [outside] at around'
        cases around'
    · rcases sits'.inside with ⟨_, outside'⟩ | ⟨u', inside', parent', around'⟩
      · rw [around] at outside'
        cases outside'
      · exact .inr ⟨u, inside, u', inside', parent, parent',
          Option.some.inj (around.symm.trans around')⟩
  siblings := by
    intro t ht u hu beside name sameT sameU
    apply List.inj_on_of_nodup_map distinct ht hu
    obtain ⟨site, inside, sits⟩ := h.exists_site ht
    obtain ⟨other, inside', sits'⟩ := h.exists_site hu
    rcases sits.inside with ⟨top, outside⟩ | ⟨p, hp, parent, around⟩
    · -- at the top level the names themselves are texts
      rcases sits'.inside with ⟨_, outside'⟩ | ⟨p', _, parent', _⟩
      · have ownT : t.qualifiedName = t.name := by
          rw [sits.qualifiedName, Site.qualifiedName, outside, sits.name]
          rfl
        have ownU : u.qualifiedName = u.name := by
          rw [sits'.qualifiedName, Site.qualifiedName, outside', sits'.name]
          rfl
        exact eq_of_texts_same (texts t ht) (texts u hu) (ownT ▸ sameT) (ownU ▸ sameU)
      · rw [top, parent'] at beside
        cases beside
    · rcases sits'.inside with ⟨top', _⟩ | ⟨p', hp', parent', around'⟩
      · rw [top', parent] at beside
        cases beside
      · rw [parent, parent', Option.some.injEq] at beside
        obtain rfl := List.inj_on_of_nodup_map pending.ids hp hp' beside
        have shown := apart site inside other inside' (around.trans around'.symm)
          (by rw [around]; exact Option.some_ne_none _) name (sits.name ▸ sameT)
          (sits'.name ▸ sameU)
        rw [sits.qualifiedName, sits'.qualifiedName, Site.qualifiedName, Site.qualifiedName, around,
          around', qualified, qualified, shown]
  texts := texts

end Outline.Numbers

end XmlRecords.Schema
