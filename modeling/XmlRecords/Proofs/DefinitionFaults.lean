import XmlRecords.Proofs.Drafting

/-!
How loading a definition can fail. What is wrong with a definition is reported as a problem, except
where it holds a value of a kind that is not looked at before it is used: something else than a list
in place of one, a list or an object as the name of a type, or a name that is no text.
-/

set_option autoImplicit false
set_option relaxedAutoImplicit false

namespace XmlRecords.Schema

open Relation

/-! ### Definitions of the right kinds -/

/-- What stands under a key, if anything does, can be taken item by item. -/
def Listed (item : Json) (key : String) : Prop := ∃ items, itemsUnder item key = .ok items

def Lists (item : Json) (key : String) (x : Json) : Prop :=
  ∃ items, itemsUnder item key = .ok items ∧ x ∈ items

/-- What stands under a key, if anything does, can be looked up: it is no list and no object. -/
def Keyed (item : Json) (key : String) : Prop :=
  ∀ value, optional? item key = some value → lookupKey value = .ok value

def Worded (item : Json) : Prop :=
  ∀ name, optional? item "name" = some name → ∃ s, name = .text s

/-- A type is nested directly in another, or declared at the top level of a definition. -/
abbrev Nests (outer inner : Json) : Prop := Lists outer "types" inner

/-- The content of a type is of the right kinds: nested types, attributes and elements that can be
taken item by item, of which the last two have texts for names and types that can be looked up. -/
structure FitContent (item : Json) : Prop where
  types : Listed item "types"
  attributes : Listed item "attributes"
  elements : Listed item "elements"
  members : ∀ x, Lists item "attributes" x ∨ Lists item "elements" x → Worded x ∧ Keyed x "type"

/-- A definition holds values of the right kinds: enumerations and types that can be taken item by
item and have texts for names, and types of which each, at whatever depth, has fit content. -/
structure Fit (definition : Json) : Prop where
  enumerations : Listed definition "enums"
  enumerationNames : ∀ e, Lists definition "enums" e → Worded e
  types : Listed definition "types"
  typeNames : ∀ t, Nests definition t → Worded t
  contents : ∀ t, TransGen Nests definition t → FitContent t

/-! ### Results that tell -/

/-- A result tells whether something fits: it is given only if that is so, and a fault is a problem,
or else of kind, and then it is not so. -/
structure Tells {α : Type} (fit : Prop) (result : Except Fault α) : Prop where
  holds : ∀ a, result = .ok a → fit
  faults : ∀ fault, result = .error fault →
    (∃ problem, fault = .problem problem) ∨ (fault = .wrongKind ∧ ¬ fit)

namespace Tells

variable {α β : Type} {fit need : Prop} {result : Except Fault α}

theorem ok (h : fit) (a : α) : Tells fit (.ok a : Except Fault α) :=
  ⟨fun _ _ => h, fun _ => nofun⟩

theorem located (cause : Cause) (location : Label) :
    Tells fit (.error (.located cause location) : Except Fault α) :=
  ⟨fun _ => nofun, fun _ given => .inl ⟨_, (Except.error.inj given).symm⟩⟩

theorem wrongKind (h : ¬ fit) : Tells fit (.error .wrongKind : Except Fault α) :=
  ⟨fun _ => nofun, fun _ given => .inr ⟨(Except.error.inj given).symm, h⟩⟩

theorem congr (h : Tells fit result) (same : fit ↔ need) : Tells need result := by
  rwa [← propext same]

theorem bind {next : α → Except Fault β} (first : Tells need result) (needed : fit → need)
    (rest : ∀ a, result = .ok a → need → Tells fit (next a)) : Tells fit (result >>= next) := by
  cases given : result with
  | ok a => exact rest a given (first.holds a given)
  | error fault =>
    refine ⟨fun _ => nofun, fun _ same => ?_⟩
    obtain rfl := Except.error.inj same
    exact (first.faults fault given).imp_right fun ⟨isKind, unfit⟩ => ⟨isKind, unfit ∘ needed⟩

theorem mapM {f : α → Except Fault β} {R : α → Prop} {xs : List α}
    (each : ∀ x ∈ xs, Tells (R x) (f x)) : Tells (∀ x ∈ xs, R x) (xs.mapM f) := by
  constructor
  · intro ys given x member
    obtain ⟨y, _, here⟩ := exists_of_forall₂_left (mapM_eq_ok_iff.mp given) member
    exact (each x member).holds y here
  · intro fault given
    obtain ⟨x, member, refused⟩ := exists_of_mapM_eq_error given
    exact ((each x member).faults fault refused).imp_right
      fun ⟨isKind, unfit⟩ => ⟨isKind, fun all => unfit (all x member)⟩

theorem forM {f : α → Except Fault Unit} {R : α → Prop} {xs : List α}
    (each : ∀ x ∈ xs, Tells (R x) (f x)) : Tells (∀ x ∈ xs, R x) (xs.forM f) := by
  induction xs with
  | nil => exact .ok (by simp) ()
  | cons x xs ih =>
    obtain ⟨first, others⟩ := List.forall_mem_cons.mp each
    refine first.bind (fun all => all x List.mem_cons_self) fun _ _ here => ?_
    exact (ih others).congr (by rw [List.forall_mem_cons, and_iff_right here])

end Tells

/-! ### Members of objects -/

theorem tells_require (item : Json) (key : String) (location : Label) :
    Tells True (require item key location) := by
  unfold require
  split
  · split
    · exact .ok trivial _
    · exact .located _ _
  · exact .located _ _

theorem optional?_of_require {item : Json} {key : String} {location : Label} {value : Json}
    (given : require item key location = .ok value) : optional? item key = some value := by
  cases item with
  | object members => exact require_object_eq_ok_iff.mp given
  | _ => cases given

theorem tells_iterate (value : Json) : Tells (∃ items, iterate value = .ok items) (iterate value) := by
  cases value with
  | array items => exact .ok ⟨_, rfl⟩ _
  | object members => exact .ok ⟨_, rfl⟩ _
  | text s => exact .ok ⟨_, rfl⟩ _
  | _ => exact .wrongKind (by simp [iterate])

theorem tells_itemsUnder (item : Json) (key : String) :
    Tells (Listed item key) (itemsUnder item key) := by
  unfold Listed itemsUnder
  cases optional? item key with
  | none => exact .ok ⟨[], rfl⟩ _
  | some value => exact tells_iterate value

theorem lists_iff {item : Json} {key : String} {items : List Json}
    (given : itemsUnder item key = .ok items) (x : Json) : Lists item key x ↔ x ∈ items := by
  constructor
  · rintro ⟨others, same, member⟩
    obtain rfl := Except.ok.inj (given.symm.trans same)
    exact member
  · exact fun member => ⟨items, given, member⟩

theorem tells_lookupKey (name : Label) : Tells (lookupKey name = .ok name) (lookupKey name) := by
  cases name with
  | array items => exact .wrongKind (by simp [lookupKey])
  | object members => exact .wrongKind (by simp [lookupKey])
  | _ => exact .ok rfl _

theorem keyed_iff {item : Json} {key : String} {location : Label} {value : Json}
    (given : require item key location = .ok value) :
    Keyed item key ↔ lookupKey value = .ok value := by
  simp [Keyed, optional?_of_require given]

theorem worded_iff {item : Json} {location : Label} {name : Json}
    (given : require item "name" location = .ok name) : Worded item ↔ ∃ s, name = .text s := by
  simp [Worded, optional?_of_require given]

/-! ### Enumerations -/

theorem tells_valuesOf (item : Json) (name source : Label) :
    Tells True (valuesOf item name source) := by
  unfold valuesOf
  simp only
  split
  · exact .ok trivial _
  · exact .located _ _

theorem tells_declareEnumerations {source : Label} {declared : List Enumerated} (items : List Json) :
    Tells (∀ item ∈ items, Keyed item "name") (declareEnumerations source declared items) := by
  induction items generalizing declared with
  | nil => exact .ok (by simp) _
  | cons item items ih =>
    rw [declareEnumerations]
    refine (tells_require item "name" source).bind (fun _ => trivial) fun name isName _ => ?_
    refine (tells_valuesOf item name source).bind (fun _ => trivial) fun values _ _ => ?_
    have keyed := keyed_iff isName
    refine (tells_lookupKey name).bind (fun all => keyed.mp (all item List.mem_cons_self))
      fun key _ isKey => ?_
    split
    · exact .located _ _
    · exact ih.congr (by rw [List.forall_mem_cons, and_iff_right (keyed.mpr isKey)])

/-! ### Attributes and elements -/

theorem tells_simpleType (scope : Scope) (name location : Label) :
    Tells (lookupKey name = .ok name) (scope.simpleType name location) := by
  unfold Scope.simpleType
  refine (tells_lookupKey name).bind id fun key _ isKey => ?_
  split
  · exact .ok isKey _
  · split
    · exact .ok isKey _
    · exact .located _ _

theorem tells_elementType (scope : Scope) (name : Label) (owner : ComplexType) :
    Tells (lookupKey name = .ok name) (scope.elementType name owner) := by
  unfold Scope.elementType
  refine (tells_lookupKey name).bind id fun key _ isKey => ?_
  split
  · exact .ok isKey _
  · split
    · exact .ok isKey _
    · split
      · exact .ok isKey _
      · exact .located _ _

theorem tells_boundOf (value : Option Json) (location : Label) :
    Tells True (boundOf value location) := by
  unfold boundOf
  split
  · exact .ok trivial _
  · exact .ok trivial _
  · exact .ok trivial _
  · split
    · exact .located _ _
    · exact .ok trivial _
  · exact .located _ _

theorem tells_resolveAttribute (scope : Scope) (owner : ComplexType) (item : Json) :
    Tells (Keyed item "type") (scope.resolveAttribute owner item) := by
  unfold Scope.resolveAttribute
  refine (tells_require item "name" _).bind (fun _ => trivial) fun name _ _ => ?_
  refine (tells_require item "type" _).bind (fun _ => trivial) fun typeName isType _ => ?_
  refine (tells_simpleType scope typeName _).bind (keyed_iff isType).mp fun type _ isKey => ?_
  have keyed := (keyed_iff isType).mpr isKey
  simp only
  split
  · exact .ok keyed _
  · exact .ok keyed _
  · exact .located _ _

theorem tells_resolveElement (scope : Scope) (owner : ComplexType) (item : Json) :
    Tells (Keyed item "type") (scope.resolveElement owner item) := by
  unfold Scope.resolveElement
  refine (tells_require item "name" _).bind (fun _ => trivial) fun name _ _ => ?_
  refine (tells_require item "type" _).bind (fun _ => trivial) fun typeName isType _ => ?_
  refine (tells_boundOf _ _).bind (fun _ => trivial) fun least _ _ => ?_
  refine (tells_boundOf _ _).bind (fun _ => trivial) fun greatest _ _ => ?_
  refine (tells_elementType scope typeName owner).bind (keyed_iff isType).mp fun type _ isKey => ?_
  exact .ok ((keyed_iff isType).mpr isKey) _

/-- The attributes and elements of a type are such as can be resolved. -/
structure Resolvable (item : Json) : Prop where
  attributes : Listed item "attributes"
  elements : Listed item "elements"
  types : ∀ x, Lists item "attributes" x ∨ Lists item "elements" x → Keyed x "type"

theorem tells_resolveType (scope : Scope) (t : ComplexType) (item : Json) :
    Tells (Resolvable item) (scope.resolveType t item) := by
  unfold Scope.resolveType
  refine (tells_itemsUnder item "attributes").bind Resolvable.attributes
    fun attributes isAttributes listed => ?_
  refine (Tells.mapM fun x _ => tells_resolveAttribute scope t x).bind ?_ fun _ _ keyed => ?_
  · exact fun h x member => h.types x (.inl ((lists_iff isAttributes x).mpr member))
  refine (tells_itemsUnder item "elements").bind Resolvable.elements
    fun elements isElements listed' => ?_
  refine (Tells.mapM fun x _ => tells_resolveElement scope t x).bind ?_ fun _ _ keyed' => ?_
  · exact fun h x member => h.types x (.inr ((lists_iff isElements x).mpr member))
  refine .ok ⟨listed, listed', fun x among => ?_⟩ _
  rcases among with inAttributes | inElements
  · exact keyed x ((lists_iff isAttributes x).mp inAttributes)
  · exact keyed' x ((lists_iff isElements x).mp inElements)

/-! ### Declared types -/

/-- Declaring types tells whether something fits, and leaves the definitions within it pending. -/
structure Gathers (fit : Prop) (within : Json → Prop) (result : Except Fault Outline) : Prop where
  tells : Tells fit result
  pending : ∀ outline, result = .ok outline →
    ∀ x, (∃ id, (id, x) ∈ outline.pending) ↔ within x

namespace Gathers

variable {fit need : Prop} {within inside : Json → Prop} {result : Except Fault Outline}

theorem none (h : fit) (empty : ∀ x, ¬ within x) :
    Gathers fit within (.ok ⟨[], []⟩) := by
  refine ⟨.ok h _, fun outline given x => ?_⟩
  obtain rfl := Except.ok.inj given
  simp [empty x]

theorem located (cause : Cause) (location : Label) :
    Gathers fit within (.error (.located cause location)) :=
  ⟨.located _ _, fun _ => nofun⟩

theorem enclose {item : Json} {location : Label} {next : TypeId}
    {inner : Label → Except Fault Outline} {declared : Label → ComplexType}
    (below : ∀ name, Gathers (Listed item "types" ∧ ∀ nested, Nests item nested →
        ∀ x, ReflTransGen Nests nested x → Listed x "types")
      (fun x => ∃ nested, Nests item nested ∧ ReflTransGen Nests nested x) (inner name)) :
    Gathers (∀ x, ReflTransGen Nests item x → Listed x "types") (ReflTransGen Nests item) (do
      let name ← require item "name" location
      let inner ← inner name
      return ⟨declared name :: inner.declared, inner.pending ++ [(next, item)]⟩) := by
  have within (x : Json) : ReflTransGen Nests item x ↔
      item = x ∨ ∃ nested, Nests item nested ∧ ReflTransGen Nests nested x :=
    ReflTransGen.cases_head_iff
  constructor
  · refine (tells_require item "name" location).bind (fun _ => trivial) fun name _ _ => ?_
    refine (below name).tells.bind ?_ fun outline _ fits => .ok ?_ _
    · exact fun all => ⟨all item .refl, fun nested nests x leads => all x (.head nests leads)⟩
    · intro x leads
      rcases (within x).mp leads with rfl | ⟨nested, nests, leads⟩
      · exact fits.1
      · exact fits.2 nested nests x leads
  · intro outline given x
    obtain ⟨name, _, given⟩ := bind_eq_ok_iff.mp given
    obtain ⟨inner', isInner, given⟩ := bind_eq_ok_iff.mp given
    obtain rfl := Except.ok.inj given
    rw [within, ← (below name).pending inner' isInner x, or_comm, eq_comm]
    simp [exists_or]

theorem append {first : Except Fault Outline} {rest : Outline → Except Fault Outline}
    (head : Gathers fit within first) (tail : ∀ outline, Gathers need inside (rest outline)) :
    Gathers (fit ∧ need) (fun x => within x ∨ inside x) (do
      let first ← first
      let rest ← rest first
      return first.append rest) := by
  constructor
  · refine head.tells.bind And.left fun outline _ fits => ?_
    refine (tail outline).tells.bind And.right fun _ _ others => ?_
    exact .ok ⟨fits, others⟩ _
  · intro outline given x
    obtain ⟨here, isHere, given⟩ := bind_eq_ok_iff.mp given
    obtain ⟨below, isBelow, given⟩ := bind_eq_ok_iff.mp given
    obtain rfl := Except.ok.inj given
    rw [← head.pending here isHere x, ← (tail here).pending below isBelow x]
    simp [Outline.append, exists_or]

theorem congr (h : Gathers fit within result) (same : fit ↔ need)
    (same' : ∀ x, within x ↔ inside x) : Gathers need inside result := by
  have within' : within = inside := funext fun x => propext (same' x)
  rwa [← propext same, ← within']

end Gathers

theorem itemsUnder_types_cons {key : String} {value : Json} {members : List (String × Json)} :
    itemsUnder (.object ((key, value) :: members)) "types" =
      if key = "types" then iterate value else itemsUnder (.object members) "types" := by
  unfold itemsUnder optional? membersOf Json.member?
  by_cases types : key = "types"
  · simp [types]
  · simp [types]

mutual
theorem gathers_declareType (source : Label) (next : TypeId) (enclosing : Enclosing) (item : Json) :
    Gathers (∀ x, ReflTransGen Nests item x → Listed x "types") (ReflTransGen Nests item)
      (declareType source next enclosing item) := by
  cases item with
  | object members =>
    rw [declareType]
    exact .enclose fun name => gathers_declareUnder source (next + 1) _ members
  | _ =>
    simp only [declareType]
    exact .located _ _

theorem gathers_declareUnder (source : Label) (next : TypeId) (enclosing : Enclosing)
    (members : List (String × Json)) :
    Gathers (Listed (.object members) "types" ∧ ∀ item, Nests (.object members) item →
        ∀ x, ReflTransGen Nests item x → Listed x "types")
      (fun x => ∃ item, Nests (.object members) item ∧ ReflTransGen Nests item x)
      (declareUnder source next enclosing members) := by
  cases members with
  | nil =>
    rw [declareUnder]
    exact .none ⟨⟨[], rfl⟩, by simp [Lists, itemsUnder, optional?, membersOf, Json.member?]⟩
      (by simp [Lists, itemsUnder, optional?, membersOf, Json.member?])
  | cons member members =>
    obtain ⟨key, value⟩ := member
    rw [declareUnder]
    unfold Nests Listed Lists
    rw [itemsUnder_types_cons]
    split
    · exact gathers_declareTypes source next enclosing value
    · exact gathers_declareUnder source next enclosing members

theorem gathers_declareTypes (source : Label) (next : TypeId) (enclosing : Enclosing) (value : Json) :
    Gathers ((∃ items, iterate value = .ok items) ∧
        ∀ item, (∃ items, iterate value = .ok items ∧ item ∈ items) →
          ∀ x, ReflTransGen Nests item x → Listed x "types")
      (fun x => ∃ item, (∃ items, iterate value = .ok items ∧ item ∈ items) ∧
        ReflTransGen Nests item x)
      (declareTypes source next enclosing value) := by
  cases value with
  | array items =>
    rw [declareTypes]
    have gathers := gathers_declareItems source next enclosing items
    simpa [iterate] using gathers
  | object members =>
    cases members with
    | nil =>
      rw [declareTypes]
      exact .none ⟨⟨_, rfl⟩, by simp [iterate]⟩ (by simp [iterate])
    | cons member members =>
      simp only [declareTypes]
      exact .located _ _
  | text s =>
    rw [declareTypes]
    split
    · rename_i empty
      exact .none ⟨⟨_, rfl⟩, by simp_all [iterate]⟩ (by simp_all [iterate])
    · exact .located _ _
  | _ =>
    simp only [declareTypes]
    exact ⟨.wrongKind (by simp [iterate]), fun _ => nofun⟩

theorem gathers_declareItems (source : Label) (next : TypeId) (enclosing : Enclosing)
    (items : List Json) :
    Gathers (∀ item ∈ items, ∀ x, ReflTransGen Nests item x → Listed x "types")
      (fun x => ∃ item ∈ items, ReflTransGen Nests item x)
      (declareItems source next enclosing items) := by
  cases items with
  | nil =>
    rw [declareItems]
    exact .none (by simp) (by simp)
  | cons item items =>
    rw [declareItems]
    have here := gathers_declareType source next enclosing item
    have below (outline : Outline) :=
      gathers_declareItems source (next + outline.declared.length) enclosing items
    exact (here.append below).congr (by rw [List.forall_mem_cons]) fun x => by simp
end

theorem texts_of_declareUnder {source : Label} {next : TypeId} {around : TypeId × Label}
    {members : List (String × Json)} {outline : Outline}
    (declared : declareUnder source next (some around) members = .ok outline) :
    ∀ t ∈ outline.declared, ∃ s, t.qualifiedName = .text s := by
  obtain ⟨sites, _, numbers⟩ := exists_sites_of_declareUnder declared
  intro t member
  obtain ⟨site, _, sits⟩ := exists_of_forall₂_left numbers.types member
  obtain ⟨outer, isInside⟩ : ∃ outer, site.enclosing = some outer := by
    rcases sits.inside with ⟨_, inside⟩ | ⟨u, _, _, inside⟩
    · exact ⟨_, inside⟩
    · exact ⟨_, inside⟩
  rw [sits.qualifiedName, Site.qualifiedName, isInside]
  exact ⟨_, rfl⟩

/-- The declared types have texts for qualified names if those at the top level have texts for
names. -/
theorem worded_items_iff {source : Label} {next : TypeId} {items : List Json} {outline : Outline}
    (declared : declareItems source next none items = .ok outline) :
    (∀ item ∈ items, Worded item) ↔ ∀ t ∈ outline.declared, ∃ s, t.qualifiedName = .text s := by
  induction items generalizing next outline with
  | nil =>
    rw [declareItems] at declared
    obtain rfl := Except.ok.inj declared
    simp
  | cons item items ih =>
    rw [declareItems] at declared
    obtain ⟨first, isFirst, declared⟩ := bind_eq_ok_iff.mp declared
    obtain ⟨rest, isRest, declared⟩ := bind_eq_ok_iff.mp declared
    obtain rfl := Except.ok.inj declared
    have here : Worded item ↔ ∀ t ∈ first.declared, ∃ s, t.qualifiedName = .text s := by
      cases item with
      | object members =>
        rw [declareType] at isFirst
        obtain ⟨name, isName, isFirst⟩ := bind_eq_ok_iff.mp isFirst
        obtain ⟨inner, isInner, isFirst⟩ := bind_eq_ok_iff.mp isFirst
        obtain rfl := Except.ok.inj isFirst
        rw [worded_iff isName, List.forall_mem_cons]
        exact (and_iff_left (texts_of_declareUnder isInner)).symm
      | _ => cases isFirst
    rw [List.forall_mem_cons, here, ih isRest, Outline.append, List.forall_mem_append]

theorem declareItems_of_declareUnder {source : Label} {next : TypeId} {enclosing : Enclosing}
    {members : List (String × Json)} {outline : Outline}
    (declared : declareUnder source next enclosing members = .ok outline) :
    ∃ items, itemsUnder (.object members) "types" = .ok items ∧
      declareItems source next enclosing items = .ok outline := by
  induction members with
  | nil =>
    rw [declareUnder] at declared
    exact ⟨[], rfl, by rw [declareItems]; exact declared⟩
  | cons member members ih =>
    obtain ⟨key, value⟩ := member
    rw [declareUnder] at declared
    rw [itemsUnder_types_cons]
    split at declared
    · rename_i types
      rw [if_pos types]
      cases value with
      | array items => exact ⟨items, rfl, by rw [declareTypes] at declared; exact declared⟩
      | object inner =>
        cases inner with
        | nil => exact ⟨[], rfl, by rw [declareItems]; rw [declareTypes] at declared; exact declared⟩
        | cons _ _ => cases declared
      | text s =>
        rw [declareTypes] at declared
        split at declared
        · rename_i empty
          refine ⟨[], by simp_all [iterate], ?_⟩
          rw [declareItems]
          exact declared
        · cases declared
      | _ => cases declared
    · rename_i other
      rw [if_neg other]
      exact ih declared

/-! ### From a definition to a schema -/

/-- What drafting a schema looks at is of the right kinds. -/
structure Draftable (definition : Json) : Prop where
  enumerations : Listed definition "enums"
  enumerationNames : ∀ e, Lists definition "enums" e → Keyed e "name"
  types : Listed definition "types"
  nested : ∀ t, TransGen Nests definition t → Listed t "types"
  contents : ∀ t, TransGen Nests definition t → Resolvable t

theorem tells_resolve {scope : Scope} {outline : Outline} (pending : outline.Pending)
    (types : scope.types = outline.declared) :
    Tells (∀ entry ∈ outline.pending, Resolvable entry.2) (scope.resolve outline.pending) := by
  refine Tells.mapM fun entry waiting => ?_
  obtain ⟨t, member, same⟩ :=
    List.mem_map.mp (pending.pending.subset (List.mem_map_of_mem (f := (·.1)) waiting))
  have found : scope.types.find? (·.id == entry.1) = some t := by
    rw [types, ← same]
    exact pending.find?_eq member
  simp only [found]
  exact tells_resolveType scope t entry.2

theorem pending_iff {source : Label} {members : List (String × Json)} {outline : Outline}
    (declared : declareUnder source 0 none members = .ok outline) (x : Json) :
    (∃ id, (id, x) ∈ outline.pending) ↔ TransGen Nests (.object members) x := by
  rw [(gathers_declareUnder source 0 none members).pending outline declared x,
    TransGen.head'_iff]

theorem tells_ofDefinition (definition : Json) (source : Label) :
    Tells (Draftable definition) (ofDefinition definition source) := by
  cases definition with
  | object members =>
    unfold ofDefinition
    refine (tells_require _ "name" _).bind (fun _ => trivial) fun name _ _ => ?_
    refine (tells_itemsUnder _ "enums").bind Draftable.enumerations fun items isItems listed => ?_
    refine (tells_declareEnumerations items).bind ?_ fun enumerations _ keyed => ?_
    · exact fun h e member => h.enumerationNames e ((lists_iff isItems e).mpr member)
    refine (gathers_declareUnder source 0 none members).tells.bind ?_ fun outline isOutline nested => ?_
    · exact fun h => ⟨h.types, fun item nests x leads => h.nested x (TransGen.head' nests leads)⟩
    refine (tells_resolve (pending_of_declareUnder isOutline) rfl).bind ?_ fun resolved _ contents => ?_
    · exact fun h entry waiting =>
        h.contents entry.2 ((pending_iff isOutline entry.2).mp ⟨entry.1, waiting⟩)
    have draftable : Draftable (.object members) := by
      refine ⟨listed, fun e member => keyed e ((lists_iff isItems e).mp member), nested.1, ?_, ?_⟩
      · intro t leads
        obtain ⟨item, nests, onward⟩ := TransGen.head'_iff.mp leads
        exact nested.2 item nests t onward
      · intro t leads
        obtain ⟨id, waiting⟩ := (pending_iff isOutline t).mpr leads
        exact contents (id, t) waiting
    refine (tells_require _ "root" _).bind (fun _ => trivial) fun root _ _ => ?_
    refine (tells_require _ "element" _).bind (fun _ => trivial) fun rootElement _ _ => ?_
    refine (tells_require _ "type" _).bind (fun _ => trivial) fun rootName _ _ => ?_
    split
    · exact .located _ _
    · exact .ok draftable _
  | _ => exact .located _ _

/-! ### Checks -/

/-- The names of a schema are texts, as far as they are checked. -/
structure NamedByTexts (s : Schema) : Prop where
  enumerations : ∀ e ∈ s.enumerations, ∃ name, e.name = .text name
  types : ∀ t ∈ s.declared, (∃ name, t.qualifiedName = .text name) ∧
    ∀ label ∈ t.fieldNames, ∃ name, label = .text name

theorem Tells.of_decides {α : Type} {check : Except Fault α} {result : α} {P : Prop}
    (decides : Decides check result P) : Tells True check := by
  refine ⟨fun _ _ => trivial, fun fault refused => .inl ?_⟩
  by_cases passes : P
  · rw [decides.1 passes] at refused
    cases refused
  · obtain ⟨problem, isProblem⟩ := decides.2 passes
    exact ⟨problem, Except.error.inj (refused.symm.trans isProblem)⟩

theorem tells_textOf (name : Label) : Tells (∃ s, name = .text s) (textOf name) := by
  cases name with
  | text s => exact .ok ⟨s, rfl⟩ _
  | _ => exact .wrongKind (by simp)

theorem tells_checkEnumerations {location : Label} {taken : List String} (es : List Enumerated) :
    Tells (∀ e ∈ es, ∃ name, e.name = .text name) (checkEnumerations location taken es) := by
  induction es generalizing taken with
  | nil => exact .ok (by simp) _
  | cons e es ih =>
    rw [checkEnumerations]
    refine (tells_textOf e.name).bind (fun all => all e List.mem_cons_self) fun name _ isText => ?_
    simp only
    split
    · exact .located _ _
    · have values := Tells.of_decides (@decides_checkValues location e [] (by simp) e.values)
      refine values.bind (fun _ => trivial) fun _ _ _ => ?_
      exact ih.congr (by rw [List.forall_mem_cons, and_iff_right isText])

theorem tells_checkFields {location : Label} {seen : List (String × Label)} (labels : List Label) :
    Tells (∀ label ∈ labels, ∃ name, label = .text name) (checkFields location seen labels) := by
  induction labels generalizing seen with
  | nil => exact .ok (by simp) _
  | cons label labels ih =>
    rw [checkFields]
    refine (tells_textOf label).bind (fun all => all label List.mem_cons_self) fun name _ isText => ?_
    simp only
    split
    · exact .located _ _
    · exact ih.congr (by rw [List.forall_mem_cons, and_iff_right isText])

theorem tells_checkTypes {s : Schema} {taken : List String} {ts : List ComplexType}
    (simple : ∀ t ∈ ts, ∀ a ∈ t.attributes, a.type.IsSimple) :
    Tells (∀ t ∈ ts, (∃ name, t.qualifiedName = .text name) ∧
      ∀ label ∈ t.fieldNames, ∃ name, label = .text name) (s.checkTypes taken ts) := by
  induction ts generalizing taken with
  | nil => exact .ok (by simp) _
  | cons t ts ih =>
    obtain ⟨own, others⟩ := List.forall_mem_cons.mp simple
    rw [checkTypes]
    refine (tells_textOf t.qualifiedName).bind (fun all => (all t List.mem_cons_self).1)
      fun name _ isText => ?_
    simp only
    split
    · exact .located _ _
    · refine (tells_checkFields t.fieldNames).bind (fun all => (all t List.mem_cons_self).2)
        fun _ _ fields => ?_
      have defaults := Tells.forM fun a member =>
        Tells.of_decides (@decides_checkDefault s t.qualifiedName a (own a member))
      refine defaults.bind (fun _ _ _ => trivial) fun _ _ _ => ?_
      exact (ih others).congr (by rw [List.forall_mem_cons, and_iff_right ⟨isText, fields⟩])

theorem tells_validate {s : Schema} (rootType : ∃ t ∈ s.declared, t.id = s.rootType)
    (simple : ∀ t ∈ s.declared, ∀ a ∈ t.attributes, a.type.IsSimple) :
    Tells s.NamedByTexts s.validate := by
  have root : Tells True s.checkRoot := by
    have declared : s.declared.any (·.id == s.rootType) = true := by simpa using rootType
    unfold checkRoot
    rw [if_pos declared]
    split
    · exact .located _ _
    · exact .ok trivial _
  unfold validate
  refine root.bind (fun _ => trivial) fun _ _ _ => ?_
  refine (tells_checkEnumerations s.enumerations).bind NamedByTexts.enumerations
    fun classes _ enumerations => ?_
  refine (tells_checkTypes simple).bind NamedByTexts.types fun _ _ types => ?_
  exact (Tells.of_decides decides_acyclic).congr (iff_of_true trivial ⟨enumerations, types⟩)

/-! ### Definitions and the schemas they give -/

theorem name_of_resolveAttribute {scope : Scope} {owner : ComplexType} {item : Json} {a : Attribute}
    (resolved : scope.resolveAttribute owner item = .ok a) :
    require item "name" owner.qualifiedName = .ok a.name := by
  unfold Scope.resolveAttribute at resolved
  simp only [bind_eq_ok_iff, pure, Except.pure] at resolved
  obtain ⟨name, isName, _, _, _, _, resolved⟩ := resolved
  split at resolved
  · obtain rfl := Except.ok.inj resolved
    exact isName
  · obtain rfl := Except.ok.inj resolved
    exact isName
  · cases resolved

theorem name_of_resolveElement {scope : Scope} {owner : ComplexType} {item : Json} {e : Element}
    (resolved : scope.resolveElement owner item = .ok e) :
    require item "name" owner.qualifiedName = .ok e.name := by
  unfold Scope.resolveElement at resolved
  simp only [bind_eq_ok_iff, pure, Except.pure] at resolved
  obtain ⟨name, isName, _, _, _, _, _, _, _, _, resolved⟩ := resolved
  obtain rfl := Except.ok.inj resolved
  exact isName

theorem worded_members_iff {scope : Scope} {t resolved : ComplexType} {item : Json}
    (isResolved : scope.resolveType t item = .ok resolved) :
    (∀ x, Lists item "attributes" x ∨ Lists item "elements" x → Worded x) ↔
      ∀ label ∈ resolved.fieldNames, ∃ name, label = .text name := by
  unfold Scope.resolveType at isResolved
  simp only [bind_eq_ok_iff, mapM_eq_ok_iff, pure, Except.pure, Except.ok.injEq] at isResolved
  obtain ⟨items, isItems, attributes, ofAttributes, items', isItems', elements, ofElements, rfl⟩ :=
    isResolved
  have inAttributes : (∀ x ∈ items, Worded x) ↔ ∀ a ∈ attributes, ∃ name, a.name = .text name :=
    forall_mem_iff_of_forall₂ ofAttributes fun x a given => worded_iff (name_of_resolveAttribute given)
  have inElements : (∀ x ∈ items', Worded x) ↔ ∀ e ∈ elements, ∃ name, e.name = .text name :=
    forall_mem_iff_of_forall₂ ofElements fun x e given => worded_iff (name_of_resolveElement given)
  simp only [ComplexType.fieldNames, List.forall_mem_append, List.forall_mem_map, ← inAttributes,
    ← inElements, lists_iff isItems, lists_iff isItems', or_imp, forall_and]

theorem Worded.keyed {item : Json} (worded : Worded item) : Keyed item "name" := by
  intro name given
  obtain ⟨s, rfl⟩ := worded name given
  rfl

theorem Fit.draftable {definition : Json} (fit : Fit definition) : Draftable definition where
  enumerations := fit.enumerations
  enumerationNames e among := (fit.enumerationNames e among).keyed
  types := fit.types
  nested t leads := (fit.contents t leads).types
  contents t leads :=
    ⟨(fit.contents t leads).attributes, (fit.contents t leads).elements,
      fun x among => ((fit.contents t leads).members x among).2⟩

section

variable {members : List (String × Json)} {source : Label} {outline : Outline} {s : Schema}

theorem worded_enumerations_iff (drafted : Drafted source members outline s) :
    (∀ e, Lists (.object members) "enums" e → Worded e) ↔
      ∀ e ∈ s.enumerations, ∃ name, e.name = .text name := by
  obtain ⟨items, isItems, isEnumerations⟩ := drafted.enumerations
  obtain ⟨new, isNew, declares⟩ := declares_of_declareEnumerations isEnumerations
  rw [isNew, List.nil_append]
  simp only [lists_iff isItems]
  exact forall_mem_iff_of_forall₂ declares fun item e given => worded_iff given.1

theorem worded_types_iff (isOutline : declareUnder source 0 none members = .ok outline)
    (drafted : Drafted source members outline s) :
    (∀ t, Nests (.object members) t → Worded t) ↔
      ∀ t ∈ s.declared, ∃ name, t.qualifiedName = .text name := by
  obtain ⟨items, isItems, isDeclared⟩ := declareItems_of_declareUnder isOutline
  simp only [Nests, lists_iff isItems]
  rw [worded_items_iff isDeclared]
  refine forall_mem_iff_of_forall₂ drafted.types fun t resolved related => ?_
  obtain ⟨item, _, isResolved⟩ := related
  rw [(label_of_resolveType isResolved).2]

theorem worded_contents_iff (isOutline : declareUnder source 0 none members = .ok outline)
    (drafted : Drafted source members outline s) :
    (∀ t, TransGen Nests (.object members) t →
        ∀ x, Lists t "attributes" x ∨ Lists t "elements" x → Worded x) ↔
      ∀ t ∈ s.declared, ∀ label ∈ t.fieldNames, ∃ name, label = .text name := by
  have pending := pending_of_declareUnder isOutline
  constructor
  · intro all resolved member
    obtain ⟨t, _, item, waiting, isResolved⟩ := exists_of_forall₂_left drafted.types.flip member
    have leads := (pending_iff isOutline item).mp ⟨t.id, waiting⟩
    exact (worded_members_iff isResolved).mp (all item leads)
  · intro all item leads
    obtain ⟨id, waiting⟩ := (pending_iff isOutline item).mpr leads
    obtain ⟨t, inside, rfl⟩ :=
      List.mem_map.mp (pending.pending.subset (List.mem_map_of_mem (f := (·.1)) waiting))
    obtain ⟨resolved, member, item', waiting', isResolved⟩ :=
      exists_of_forall₂_left drafted.types inside
    obtain rfl := pending.unique waiting waiting'
    exact (worded_members_iff isResolved).mpr (all resolved member)

theorem fit_iff_namedByTexts (draftable : Draftable (.object members))
    (isOutline : declareUnder source 0 none members = .ok outline)
    (drafted : Drafted source members outline s) : Fit (.object members) ↔ s.NamedByTexts := by
  have enumerations := worded_enumerations_iff drafted
  have types := worded_types_iff isOutline drafted
  have contents := worded_contents_iff isOutline drafted
  constructor
  · intro fit
    refine ⟨enumerations.mp fit.enumerationNames, fun t member => ?_⟩
    refine ⟨types.mp fit.typeNames t member, contents.mp (fun t leads x among => ?_) t member⟩
    exact ((fit.contents t leads).members x among).1
  · intro named
    refine ⟨draftable.enumerations, enumerations.mpr named.enumerations, draftable.types,
      types.mpr fun t member => (named.types t member).1, fun t leads => ?_⟩
    have worded := contents.mpr (fun t member => (named.types t member).2) t leads
    have resolvable := draftable.contents t leads
    exact ⟨draftable.nested t leads, resolvable.attributes, resolvable.elements,
      fun x among => ⟨worded x among, resolvable.types x among⟩⟩

theorem tells_validate_of_drafted (drafted : Drafted source members outline s) :
    Tells s.NamedByTexts s.validate := by
  apply tells_validate
  · obtain ⟨_, _, rootType, _, _, _, found, isRoot⟩ := drafted.root
    obtain ⟨resolved, member, _, _, isResolved⟩ :=
      exists_of_forall₂_left drafted.types (mem_of_findComplex found)
    exact ⟨resolved, member, (label_of_resolveType isResolved).1.trans isRoot⟩
  · intro t member
    obtain ⟨_, _, _, _, isResolved⟩ := exists_of_forall₂_left drafted.types.flip member
    exact (regular_of_resolveType isResolved).attributes

end

theorem tells_load (definition : Json) (source : Label) :
    Tells (Fit definition) (load definition source) := by
  unfold load
  refine (tells_ofDefinition definition source).bind Fit.draftable fun s isDrafted draftable => ?_
  cases definition with
  | object members =>
    obtain ⟨outline, isOutline, drafted⟩ := ofDefinition_eq_ok_iff.mp isDrafted
    have named := fit_iff_namedByTexts draftable isOutline drafted
    exact (tells_validate_of_drafted drafted).bind named.mp fun _ _ texts => .ok (named.mpr texts) s
  | _ => cases isDrafted

end XmlRecords.Schema
