import XmlRecords.Proofs.Resolution

/-!
Declared types without their numbers: each with its name, the qualified name of the type around it and
what its content is resolved from. To declare the types of a definition is to number its sites.
-/

set_option autoImplicit false
set_option relaxedAutoImplicit false

namespace XmlRecords.Schema

/-- Where a type is declared: the qualified name of the type around it, if there is one, its own name,
and the definitions of its attributes and elements. -/
structure Site where
  enclosing : Option Label
  name : Label
  attributes : Except Fault (List Json)
  elements : Except Fault (List Json)

def Site.qualifiedName (site : Site) : Label := qualified site.enclosing site.name

mutual
/-- The sites of a type and of the types nested in it, none if one of them has no name. -/
def sitesOf (enclosing : Option Label) : Json → Option (List Site)
  | .object members =>
    match Json.member? members "name" with
    | none => none
    | some name =>
      (sitesUnder (some (qualified enclosing name)) members).map
        (⟨enclosing, name, itemsUnder (.object members) "attributes",
          itemsUnder (.object members) "elements"⟩ :: ·)
  | _ => none

def sitesUnder (enclosing : Option Label) : List (String × Json) → Option (List Site)
  | [] => some []
  | (key, value) :: members =>
    if key = "types" then sitesIn enclosing value else sitesUnder enclosing members

def sitesIn (enclosing : Option Label) : Json → Option (List Site)
  | .array items => sitesOfAll enclosing items
  | .object [] => some []
  | .text s => if s.isEmpty then some [] else none
  | _ => none

def sitesOfAll (enclosing : Option Label) : List Json → Option (List Site)
  | [] => some []
  | item :: items =>
    match sitesOf enclosing item, sitesOfAll enclosing items with
    | some first, some rest => some (first ++ rest)
    | _, _ => none
end

theorem sitesUnder_eq (enclosing : Option Label) (members : List (String × Json)) :
    sitesUnder enclosing members =
      match Json.member? members "types" with
      | none => some []
      | some value => sitesIn enclosing value := by
  induction members with
  | nil => rw [sitesUnder]; rfl
  | cons member members ih =>
    obtain ⟨key, value⟩ := member
    rw [sitesUnder, ih]
    by_cases types : key = "types"
    · simp [Json.member?, types]
    · simp [Json.member?, types]

/-! ### Numbered sites -/

/-- A type of an outline is the one declared at a site. -/
structure ComplexType.SitsAt (enclosing : Enclosing) (outline : Outline) (t : ComplexType)
    (site : Site) : Prop where
  name : t.name = site.name
  qualifiedName : t.qualifiedName = site.qualifiedName
  inside : t.parent = enclosing.map (·.1) ∧ site.enclosing = enclosing.map (·.2) ∨
    ∃ u ∈ outline.declared, t.parent = some u.id ∧ site.enclosing = some u.qualifiedName
  pending : ∃ item, (t.id, item) ∈ outline.pending ∧
    itemsUnder item "attributes" = site.attributes ∧ itemsUnder item "elements" = site.elements

/-- The types of an outline are those of the sites, in order, and each of them is still to be
resolved. -/
structure Outline.Numbers (enclosing : Enclosing) (outline : Outline) (sites : List Site) : Prop where
  types : List.Forall₂ (ComplexType.SitsAt enclosing outline) outline.declared sites
  pending : (outline.pending.map (·.1)).Perm (outline.declared.map (·.id))

/-- Types are declared exactly if they have sites. -/
inductive Follows (enclosing : Enclosing) : Except Fault Outline → Option (List Site) → Prop
  | ok {outline : Outline} {sites : List Site} :
      outline.Numbers enclosing sites → Follows enclosing (.ok outline) (some sites)
  | error (fault : Fault) : Follows enclosing (.error fault) none

theorem ComplexType.SitsAt.mono {enclosing : Enclosing} {outline wider : Outline} {t : ComplexType}
    {site : Site} (h : t.SitsAt enclosing outline site) (declared : outline.declared ⊆ wider.declared)
    (pending : outline.pending ⊆ wider.pending) : t.SitsAt enclosing wider site := by
  refine ⟨h.name, h.qualifiedName, h.inside.imp_right ?_, ?_⟩
  · rintro ⟨u, member, around⟩
    exact ⟨u, declared member, around⟩
  · obtain ⟨item, waiting, content⟩ := h.pending
    exact ⟨item, pending waiting, content⟩

namespace Outline.Numbers

variable {enclosing : Enclosing}

theorem nil : Outline.Numbers enclosing ⟨[], []⟩ [] := ⟨.nil, .nil⟩

theorem append {first rest : Outline} {here below : List Site} (head : first.Numbers enclosing here)
    (tail : rest.Numbers enclosing below) :
    (first.append rest).Numbers enclosing (here ++ below) := by
  refine ⟨List.rel_append ?_ ?_, ?_⟩
  · exact head.types.imp fun _ _ h => h.mono (List.subset_append_left _ _)
      (List.subset_append_left _ _)
  · exact tail.types.imp fun _ _ h => h.mono (List.subset_append_right _ _)
      (List.subset_append_right _ _)
  · rw [Outline.append, List.map_append, List.map_append]
    exact head.pending.append tail.pending

theorem enclose {next : TypeId} {name : Label} {members : List (String × Json)} {inner : Outline}
    {sites : List Site}
    (below : inner.Numbers (some (next, qualified (enclosing.map (·.2)) name)) sites) :
    Outline.Numbers enclosing
      ⟨⟨next, name, qualified (enclosing.map (·.2)) name, enclosing.map (·.1), [], []⟩ ::
          inner.declared, inner.pending ++ [(next, .object members)]⟩
      (⟨enclosing.map (·.2), name, itemsUnder (.object members) "attributes",
        itemsUnder (.object members) "elements"⟩ :: sites) := by
  refine ⟨.cons ⟨rfl, rfl, .inl ⟨rfl, rfl⟩, ?_⟩ (below.types.imp fun t site h => ?_), ?_⟩
  · exact ⟨.object members, List.mem_append_right _ List.mem_cons_self, rfl, rfl⟩
  · obtain ⟨item, waiting, content⟩ := h.pending
    refine ⟨h.name, h.qualifiedName, .inr ?_, item, List.mem_append_left _ waiting, content⟩
    rcases h.inside with ⟨parent, around⟩ | ⟨u, member, around⟩
    · exact ⟨_, List.mem_cons_self, parent, around⟩
    · exact ⟨u, List.mem_cons_of_mem _ member, around⟩
  · rw [List.map_append, List.map_singleton, List.map_cons]
    exact List.perm_append_comm.trans (below.pending.cons next)

end Outline.Numbers

mutual
theorem follows_declareType (source : Label) (next : TypeId) (enclosing : Enclosing) (item : Json) :
    Follows enclosing (declareType source next enclosing item)
      (sitesOf (enclosing.map (·.2)) item) := by
  cases item with
  | object members =>
    rw [declareType, sitesOf]
    cases named : Json.member? members "name" with
    | none =>
      simp only [require, named]
      exact .error _
    | some name =>
      simp only [require, named]
      have below := follows_declareUnder source (next + 1)
        (some (next, qualified (enclosing.map (·.2)) name)) members
      simp only [Option.map_some] at below
      simp only [bind, Except.bind]
      generalize declareUnder source (next + 1) (some (next, qualified (enclosing.map (·.2)) name))
        members = inner at below ⊢
      generalize sitesUnder (some (qualified (enclosing.map (·.2)) name)) members = sites at below ⊢
      cases below with
      | error fault => exact .error fault
      | ok numbers => exact .ok numbers.enclose
  | _ =>
    simp only [declareType, sitesOf]
    exact .error _

theorem follows_declareUnder (source : Label) (next : TypeId) (enclosing : Enclosing)
    (members : List (String × Json)) :
    Follows enclosing (declareUnder source next enclosing members)
      (sitesUnder (enclosing.map (·.2)) members) := by
  cases members with
  | nil =>
    rw [declareUnder, sitesUnder]
    exact .ok .nil
  | cons member members =>
    obtain ⟨key, value⟩ := member
    rw [declareUnder, sitesUnder]
    split
    · exact follows_declareTypes source next enclosing value
    · exact follows_declareUnder source next enclosing members

theorem follows_declareTypes (source : Label) (next : TypeId) (enclosing : Enclosing) (value : Json) :
    Follows enclosing (declareTypes source next enclosing value)
      (sitesIn (enclosing.map (·.2)) value) := by
  cases value with
  | array items =>
    rw [declareTypes, sitesIn]
    exact follows_declareItems source next enclosing items
  | object members =>
    cases members with
    | nil =>
      rw [declareTypes, sitesIn]
      exact .ok .nil
    | cons member members =>
      simp only [declareTypes, sitesIn]
      exact .error _
  | text s =>
    rw [declareTypes, sitesIn]
    split
    · exact .ok .nil
    · exact .error _
  | _ =>
    simp only [declareTypes, sitesIn]
    exact .error _

theorem follows_declareItems (source : Label) (next : TypeId) (enclosing : Enclosing)
    (items : List Json) :
    Follows enclosing (declareItems source next enclosing items)
      (sitesOfAll (enclosing.map (·.2)) items) := by
  cases items with
  | nil =>
    rw [declareItems, sitesOfAll]
    exact .ok .nil
  | cons item items =>
    have here := follows_declareType source next enclosing item
    rw [declareItems, sitesOfAll]
    generalize declareType source next enclosing item = first at here ⊢
    generalize sitesOf (enclosing.map (·.2)) item = sites at here ⊢
    cases here with
    | error fault => exact .error fault
    | @ok outline sites numbers =>
      have below := follows_declareItems source (next + outline.declared.length) enclosing items
      simp only [bind, Except.bind]
      generalize declareItems source (next + outline.declared.length) enclosing items = rest
        at below ⊢
      generalize sitesOfAll (enclosing.map (·.2)) items = others at below ⊢
      cases below with
      | error fault => exact .error fault
      | ok others => exact .ok (numbers.append others)
end

theorem exists_sites_of_declareUnder {source : Label} {next : TypeId} {enclosing : Enclosing}
    {members : List (String × Json)} {outline : Outline}
    (declared : declareUnder source next enclosing members = .ok outline) :
    ∃ sites, sitesUnder (enclosing.map (·.2)) members = some sites ∧
      outline.Numbers enclosing sites := by
  have follows := follows_declareUnder source next enclosing members
  rw [declared] at follows
  generalize sitesUnder (enclosing.map (·.2)) members = found at follows ⊢
  cases follows with
  | ok numbers => exact ⟨_, rfl, numbers⟩

theorem exists_outline_of_sitesUnder (source : Label) (next : TypeId) (enclosing : Enclosing)
    {members : List (String × Json)} {sites : List Site}
    (found : sitesUnder (enclosing.map (·.2)) members = some sites) :
    ∃ outline, declareUnder source next enclosing members = .ok outline ∧
      outline.Numbers enclosing sites := by
  have follows := follows_declareUnder source next enclosing members
  rw [found] at follows
  generalize declareUnder source next enclosing members = result at follows ⊢
  cases follows with
  | ok numbers => exact ⟨_, rfl, numbers⟩

end XmlRecords.Schema
