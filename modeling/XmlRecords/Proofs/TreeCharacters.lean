import XmlRecords.Proofs.DeclaredCharacters
import XmlRecords.Proofs.Lexing
import XmlRecords.Xml.Inclusion

/-!
The characters of document trees: with entities expanded, defaults filled in and inclusions made, a
tree holds nothing but what documents may hold.
-/

set_option autoImplicit false
set_option relaxedAutoImplicit false

namespace XmlRecords.Xml

/-! ### Tags -/

theorem legible_of_attributeValues? {s : Settings} {d : Declarations} (fit : d.IsLegible)
    {element : String} {given : List (String × List Piece)} (legible : LegibleValues given)
    {values : List (String × String)} (found : attributeValues? s d element given = some values) :
    ∀ a ∈ values, Legible a.2.toList := by
  obtain ⟨own, isOwn, found⟩ := Option.bind_eq_some_iff.mp found
  obtain rfl := Option.some.inj found
  intro a member
  rcases List.mem_append.mp member with written | default
  · obtain ⟨⟨name, pieces⟩, inside, isValue⟩ := exists_of_mapM_eq_some isOwn written
    obtain ⟨value, expanded, same⟩ := Option.bind_eq_some_iff.mp isValue
    obtain rfl := Option.some.inj same
    exact legible_normalize _ (legible_of_expandValue? fit (legible _ inside) expanded)
  · obtain ⟨declared, inside, same⟩ := List.mem_filterMap.mp default
    split at same
    · obtain ⟨value, isDefault, rfl⟩ := Option.map_eq_some_iff.mp same
      exact fit.attributes declared inside value isDefault
    · cases same

theorem legible_of_resolveTag? {prefixes inner : Prefixes} {name : String}
    {attributes : List (String × String)} (legible : ∀ a ∈ attributes, Legible a.2.toList)
    {tag : StartTag} (found : resolveTag? prefixes name attributes = some (tag, inner)) :
    Legible tag.characters := by
  unfold resolveTag? at found
  split at found
  · cases found
  · obtain ⟨inner', _, found⟩ := Option.bind_eq_some_iff.mp found
    obtain ⟨⟨pre, localName⟩, _, found⟩ := Option.bind_eq_some_iff.mp found
    obtain ⟨space, _, found⟩ := Option.bind_eq_some_iff.mp found
    obtain ⟨resolved, isResolved, found⟩ := Option.bind_eq_some_iff.mp found
    split at found
    · obtain ⟨rfl, rfl⟩ := Prod.mk.inj (Option.some.inj found)
      intro c member
      obtain ⟨a, inside, here⟩ := List.mem_flatMap.mp member
      obtain ⟨given, isPlain, isAttribute⟩ := exists_of_mapM_eq_some isResolved inside
      have same : a.value = given.2 := by
        obtain ⟨⟨pre', name'⟩, _, isAttribute⟩ := Option.bind_eq_some_iff.mp isAttribute
        simp only at isAttribute
        split at isAttribute
        · obtain rfl := Option.some.inj isAttribute
          rfl
        · obtain ⟨space', _, isAttribute⟩ := Option.bind_eq_some_iff.mp isAttribute
          obtain rfl := Option.some.inj isAttribute
          rfl
      exact legible given (List.mem_filter.mp isPlain).1 c (same ▸ here)
    · cases found

/-! ### Content -/

def LegibleExpansion (expand : Expansion) : Prop :=
  ∀ prefixes name nodes, expand prefixes name = some nodes → Legible (Node.charactersOfAll nodes)

theorem legible_textNode {run : List Char} (legible : Legible run) :
    Legible (Node.charactersOfAll (textNode run)) := by
  unfold textNode
  split
  · simp [Node.charactersOfAll, Legible]
  · intro c member
    rw [Node.charactersOfAll, Node.charactersOfAll, Node.characters, List.append_nil,
      String.toList_ofList, List.mem_reverse] at member
    exact legible c member

theorem legible_of_resolvePieces? {expand : Expansion} (expansion : LegibleExpansion expand)
    {prefixes : Prefixes} {run : List Char} (runFit : Legible run) {pieces : List Piece}
    (legible : ∀ piece ∈ pieces, piece.IsLegible) {nodes : List Node}
    (given : resolvePieces? expand prefixes run pieces = some nodes) :
    Legible (Node.charactersOfAll nodes) := by
  induction pieces generalizing run nodes with
  | nil =>
    obtain rfl := Option.some.inj given
    exact legible_textNode runFit
  | cons piece pieces ih =>
    obtain ⟨here, below⟩ := List.forall_mem_cons.mp legible
    cases piece with
    | literal c => exact ih (List.forall_mem_cons.mpr ⟨here, runFit⟩) below given
    | character c => exact ih (List.forall_mem_cons.mpr ⟨here, runFit⟩) below given
    | entity name =>
      obtain ⟨expanded, isExpanded, given⟩ := Option.bind_eq_some_iff.mp given
      obtain ⟨rest, isRest, given⟩ := Option.bind_eq_some_iff.mp given
      obtain rfl := Option.some.inj given
      rw [Node.charactersOfAll_append, Node.charactersOfAll_append, legible_append, legible_append]
      exact ⟨⟨legible_textNode runFit, expansion _ _ _ isExpanded⟩,
        ih (by simp [Legible]) below isRest⟩

mutual
theorem legible_of_resolveRaw? {s : Settings} {d : Declarations} (fit : d.IsLegible)
    {expand : Expansion} (expansion : LegibleExpansion expand) (prefixes : Prefixes) :
    (raw : Raw) → raw.IsLegible → (nodes : List Node) →
      resolveRaw? s d expand prefixes raw = some nodes → Legible (Node.charactersOfAll nodes)
  | .element name attributes children, legible, nodes, given => by
    obtain ⟨attributesFit, childrenFit⟩ := legible
    rw [resolveRaw?] at given
    obtain ⟨values, isValues, given⟩ := Option.bind_eq_some_iff.mp given
    obtain ⟨⟨tag, inner⟩, isTag, given⟩ := Option.bind_eq_some_iff.mp given
    obtain ⟨inside, isInside, given⟩ := Option.bind_eq_some_iff.mp given
    obtain rfl := Option.some.inj given
    have tagFit := legible_of_resolveTag? (legible_of_attributeValues? fit attributesFit isValues) isTag
    have insideFit := legible_of_resolveAll? fit expansion inner children childrenFit inside isInside
    rw [Node.charactersOfAll, Node.charactersOfAll, Node.characters, List.append_nil, legible_append]
    exact ⟨tagFit, insideFit⟩
  | .characters pieces, legible, nodes, given =>
    legible_of_resolvePieces? expansion (by simp [Legible]) legible given
  | .cdata t, legible, nodes, given => by
    obtain rfl := Option.some.inj given
    rw [Node.charactersOfAll, Node.charactersOfAll, Node.characters, List.append_nil]
    exact legible
  | .comment t, _, nodes, given => by
    obtain rfl := Option.some.inj given
    simp [Node.charactersOfAll, Node.characters, Legible]
  | .instruction target data, _, nodes, given => by
    obtain rfl := Option.some.inj given
    simp [Node.charactersOfAll, Node.characters, Legible]

theorem legible_of_resolveAll? {s : Settings} {d : Declarations} (fit : d.IsLegible)
    {expand : Expansion} (expansion : LegibleExpansion expand) (prefixes : Prefixes) :
    (raws : List Raw) → Raw.AllLegible raws → (nodes : List Node) →
      resolveAll? s d expand prefixes raws = some nodes → Legible (Node.charactersOfAll nodes)
  | [], _, nodes, given => by
    obtain rfl := Option.some.inj given
    simp [Node.charactersOfAll, Legible]
  | raw :: raws, legible, nodes, given => by
    rw [resolveAll?] at given
    obtain ⟨first, isFirst, given⟩ := Option.bind_eq_some_iff.mp given
    obtain ⟨rest, isRest, given⟩ := Option.bind_eq_some_iff.mp given
    obtain rfl := Option.some.inj given
    rw [Node.charactersOfAll_append, legible_append]
    exact ⟨legible_of_resolveRaw? fit expansion prefixes raw legible.1 first isFirst,
      legible_of_resolveAll? fit expansion prefixes raws legible.2 rest isRest⟩
end

theorem legible_of_entityContent? {cs rest : List Char} (given : entityContent? cs = some rest) :
    Legible rest := by
  unfold entityContent? at given
  split at given
  · rename_i fits
    obtain ⟨⟨declaration, after⟩, taken, rfl⟩ := Option.map_eq_some_iff.mp given
    have legible : Legible cs := List.all_eq_true.mp fits
    exact legible.suffix (suffix_of_takeDeclaration? taken)
  · cases given

theorem legibleExpansion_expandEntity? (s : Settings) {d : Declarations} (fit : d.IsLegible)
    (fuel : Nat) : LegibleExpansion (expandEntity? s d fuel) := by
  induction fuel with
  | zero =>
    intro prefixes name nodes given
    cases given
  | succ fuel ih =>
    intro prefixes name nodes given
    have ofText {text : List Char} (legible : Legible text) {nodes : List Node}
        (given : (content? text).bind (resolveAll? s d (expandEntity? s d fuel) prefixes) = some nodes) :
        Legible (Node.charactersOfAll nodes) := by
      obtain ⟨raws, isContent, resolved⟩ := Option.bind_eq_some_iff.mp given
      have rawsFit := Raw.allLegible_iff.mpr (legible_of_content? legible isContent)
      exact legible_of_resolveAll? fit ih prefixes raws rawsFit nodes resolved
    have ofNone : Legible (Node.charactersOfAll []) := by simp [Node.charactersOfAll, Legible]
    rw [expandEntity?] at given
    simp only at given
    split at given
    · rename_i text found
      split at given
      · exact ofText (fit.entity found) given
      · obtain ⟨_, _, rfl⟩ := Option.map_eq_some_iff.mp given
        exact ofNone
    · split at given
      · split at given
        · rename_i text _
          obtain ⟨content, isContent, given⟩ := Option.bind_eq_some_iff.mp given
          exact ofText (legible_of_entityContent? isContent) given
        · obtain rfl := Option.some.inj given
          exact ofNone
      · obtain rfl := Option.some.inj given
        exact ofNone
    · cases given
    · split at given
      · cases given
      · obtain rfl := Option.some.inj given
        exact ofNone

mutual
theorem allLegible_upToUndeclared (d : Declarations) :
    (raw : Raw) → raw.IsLegible → Raw.AllLegible (raw.upToUndeclared d).1
  | .element name attributes children, legible => by
    rw [Raw.upToUndeclared]
    simp only
    split
    · trivial
    · exact ⟨⟨legible.1, allLegible_allUpToUndeclared d children legible.2⟩, trivial⟩
  | .characters pieces, legible => by
    rw [Raw.upToUndeclared]
    exact ⟨fun piece member => legible piece (List.takeWhile_subset _ member), trivial⟩
  | .cdata t, legible => ⟨legible, trivial⟩
  | .comment t, _ => ⟨trivial, trivial⟩
  | .instruction target data, _ => ⟨trivial, trivial⟩

theorem allLegible_allUpToUndeclared (d : Declarations) :
    (raws : List Raw) → Raw.AllLegible raws → Raw.AllLegible (Raw.allUpToUndeclared d raws).1
  | [], _ => trivial
  | raw :: raws, legible => by
    have first := allLegible_upToUndeclared d raw legible.1
    have rest := allLegible_allUpToUndeclared d raws legible.2
    rw [Raw.allUpToUndeclared]
    simp only
    split
    · exact first
    · rw [Raw.allLegible_iff] at first rest ⊢
      exact List.forall_mem_append.mpr ⟨first, rest⟩
end

/-! ### Documents -/

theorem legible_of_parseDocument? {s : Settings} {document : List Char} {root : Node}
    (parsed : parseDocument? s document = some root) : Legible root.characters := by
  unfold parseDocument? at parsed
  extract_lets rooted going at parsed
  -- the root is the only node, whether the tree is whole or cut short
  have only {nodes : List Node} (legible : Legible (Node.charactersOfAll nodes))
      (parsed : rooted nodes = some root) : Legible root.characters := by
    have same : nodes = [root] := by
      simp only [rooted] at parsed
      split at parsed
      · split at parsed
        · split at parsed
          · rw [Option.some.inj parsed]
          · cases parsed
        · rw [Option.some.inj parsed]
      · cases parsed
    rw [same, Node.charactersOfAll, Node.charactersOfAll, List.append_nil] at legible
    exact legible
  split at parsed
  · cases parsed
  · rename_i fits
    have legible : Legible (normalizeLines false document) :=
      all_normalizeLines (by simpa using fits) false
    obtain ⟨⟨declaration, start⟩, isStart, parsed⟩ := Option.bind_eq_some_iff.mp parsed
    obtain ⟨⟨d, after⟩, isProlog, parsed⟩ := Option.bind_eq_some_iff.mp parsed
    obtain ⟨content, isContent, parsed⟩ := Option.bind_eq_some_iff.mp parsed
    obtain ⟨raw, isRoot, parsed⟩ := Option.bind_eq_some_iff.mp parsed
    have startFit := legible.suffix (suffix_of_takeDocumentDeclaration? isStart)
    obtain ⟨fit, afterEnds⟩ := legible_of_takeProlog? startFit isProlog
    have rawFit := legible_of_root? (legible_of_content? (startFit.suffix afterEnds) isContent) isRoot
    have expansion := legibleExpansion_expandEntity? s fit d.depth
    simp only at parsed
    split at parsed
    · cases parsed
    · obtain ⟨whole, isWhole, parsed⟩ := Option.bind_eq_some_iff.mp parsed
      have wholeFit := legible_of_resolveRaw? fit expansion Prefixes.initial raw rawFit whole isWhole
      split at parsed
      · exact only wholeFit parsed
      · obtain ⟨cut, isCut, parsed⟩ := Option.bind_eq_some_iff.mp parsed
        have partFit := allLegible_upToUndeclared d raw rawFit
        exact only (legible_of_resolveAll? fit expansion Prefixes.initial _ partFit cut isCut) parsed

theorem legible_of_parse? {s : Settings} {source : Source} {root : Node}
    (parsed : source.parse? s = some root) : Legible root.characters := by
  obtain ⟨document, _, parsed⟩ := Option.bind_eq_some_iff.mp parsed
  exact legible_of_parseDocument? parsed

/-! ### Inclusions -/

def LegibleBase (base : Option String) : Prop := ∀ place, base = some place → Legible place.toList

theorem legibleBase_none : LegibleBase none := by simp [LegibleBase]

theorem legibleBase_some {place : String} (legible : Legible place.toList) :
    LegibleBase (some place) := by
  rintro place' same
  obtain rfl := Option.some.inj same
  exact legible

theorem legible_joined {segments : List String} (legible : ∀ t ∈ segments, Legible t.toList) :
    Legible ("/".intercalate segments).toList := by
  rw [String.toList_intercalate]
  refine legible_intercalate (legible_of_all (by decide)) fun part member => ?_
  obtain ⟨t, inside, rfl⟩ := List.mem_map.mp member
  exact legible t inside

namespace Location

theorem legible_of_mem_segments {path segment : String} (legible : Legible path.toList)
    (member : segment ∈ segments path) : Legible segment.toList := by
  obtain ⟨part, inside, rfl⟩ := List.mem_map.mp member
  rw [String.toList_ofList]
  exact fun c here => legible c (mem_of_mem_splitOnP inside here).2

theorem legible_of_mem_directory {path segment : String} (legible : Legible path.toList)
    (member : segment ∈ directory path) : Legible segment.toList :=
  legible_of_mem_segments legible (List.mem_of_mem_dropLast member)

theorem legible_of_mem_normalize {done rest : List String} (doneFit : ∀ t ∈ done, Legible t.toList)
    (restFit : ∀ t ∈ rest, Legible t.toList) : ∀ t ∈ normalize done rest, Legible t.toList := by
  have emptyFit : Legible "".toList := by simp [Legible]
  have upFit : Legible "..".toList := legible_of_all (by decide)
  fun_induction normalize done rest with
  | case1 done => simpa using doneFit
  | case2 done rest ih =>
    refine ih ?_ (List.forall_mem_cons.mp restFit).2
    split
    · exact List.forall_mem_cons.mpr ⟨emptyFit, doneFit⟩
    · exact doneFit
  | case3 rest ih =>
    exact ih (List.forall_mem_cons.mpr ⟨upFit, doneFit⟩) (List.forall_mem_cons.mp restFit).2
  | case4 rest outer ih =>
    exact ih (List.forall_mem_cons.mpr ⟨upFit, doneFit⟩) (List.forall_mem_cons.mp restFit).2
  | case5 rest segment outer other ih =>
    have outerFit := (List.forall_mem_cons.mp doneFit).2
    refine ih ?_ (List.forall_mem_cons.mp restFit).2
    split
    · exact List.forall_mem_cons.mpr ⟨emptyFit, outerFit⟩
    · exact outerFit
  | case6 done segment rest notDot notUp ih =>
    obtain ⟨here, below⟩ := List.forall_mem_cons.mp restFit
    exact ih (List.forall_mem_cons.mpr ⟨here, doneFit⟩) below

theorem legible_resolve {base : Option String} (baseFit : LegibleBase base) {reference : String}
    (referenceFit : Legible reference.toList) : Legible (resolve base reference).toList := by
  cases base with
  | none => exact referenceFit
  | some base =>
    have fit := baseFit base rfl
    rw [resolve]
    split
    · exact fit
    · split
      · exact referenceFit
      · refine legible_joined (legible_of_mem_normalize (by simp) ?_)
        exact List.forall_mem_append.mpr ⟨fun t => legible_of_mem_directory fit,
          fun t => legible_of_mem_segments referenceFit⟩

theorem dropShared_subset (as bs : List String) :
    (dropShared as bs).1 ⊆ as ∧ (dropShared as bs).2 ⊆ bs := by
  fun_induction dropShared as bs with
  | case1 as b bs ih =>
    exact ⟨List.Subset.trans ih.1 (List.subset_cons_self b as),
      List.Subset.trans ih.2 (List.subset_cons_self b bs)⟩
  | case2 a as b bs differ => exact ⟨List.Subset.refl _, List.Subset.refl _⟩
  | case3 as bs other => exact ⟨List.Subset.refl _, List.Subset.refl _⟩

theorem legible_relative {base : Option String} {place : String} (placeFit : Legible place.toList) :
    Legible (relative base place).toList := by
  cases base with
  | none => exact placeFit
  | some base =>
    rw [relative]
    simp only
    refine legible_joined fun t member => ?_
    rcases List.mem_append.mp member with before | name
    · rcases List.mem_append.mp before with up | down
      · obtain ⟨_, _, rfl⟩ := List.mem_map.mp up
        exact legible_of_all (by decide)
      · exact legible_of_mem_directory placeFit ((dropShared_subset _ _).2 down)
    · rw [List.mem_singleton.mp name]
      cases last : (segments place).getLast? with
      | none => simp [Legible]
      | some segment => exact legible_of_mem_segments placeFit (List.mem_of_getLast? last)

end Location

theorem legible_of_mem_attributes {tag : StartTag} (legible : Legible tag.characters) {a : Attribute}
    (member : a ∈ tag.attributes) : Legible a.value.toList :=
  fun c inside => legible c (List.mem_flatMap.mpr ⟨a, member, inside⟩)

theorem legible_plain? {tag : StartTag} (legible : Legible tag.characters) (name : String) :
    Legible ((tag.plain? name).getD "").toList := by
  unfold StartTag.plain?
  cases found : tag.attributes.find? fun a => a.space == "" && a.name == name with
  | none => simp [Legible]
  | some a => exact legible_of_mem_attributes legible (List.mem_of_find?_eq_some found)

theorem legibleBase_baseInside {tag : StartTag} (legible : Legible tag.characters)
    {base : Option String} (baseFit : LegibleBase base) : LegibleBase (tag.baseInside base) := by
  unfold StartTag.baseInside
  split
  · rename_i a found
    have valueFit := legible_of_mem_attributes legible (List.mem_of_find?_eq_some found)
    exact legibleBase_some (Location.legible_resolve baseFit valueFit)
  · exact baseFit

theorem legible_withBase {reference : String} (referenceFit : Legible reference.toList) {node : Node}
    (legible : Legible node.characters) : Legible (node.withBase reference).characters := by
  cases node with
  | element tag children =>
    obtain ⟨tagFit, childrenFit⟩ := legible_append.mp legible
    rw [Node.withBase]
    split
    · exact legible
    · extract_lets own value others
      have valueFit : Legible value.toList := by
        simp only [value]
        cases found : own with
        | none => exact referenceFit
        | some a =>
          have given := legible_of_mem_attributes tagFit (List.mem_of_find?_eq_some found)
          exact Location.legible_resolve (legibleBase_some referenceFit) given
      refine legible_append.mpr ⟨fun c member => ?_, childrenFit⟩
      obtain ⟨a, inside, here⟩ := List.mem_flatMap.mp member
      rcases List.mem_append.mp inside with old | new
      · exact legible_of_mem_attributes tagFit (List.mem_filter.mp old).1 c here
      · rw [List.mem_singleton.mp new] at here
        exact valueFit c here
  | text t => exact legible
  | comment t => exact legible
  | instruction target data => exact legible

theorem legible_map_withBase {reference : String} (referenceFit : Legible reference.toList)
    {nodes : List Node} (legible : Legible (Node.charactersOfAll nodes)) :
    Legible (Node.charactersOfAll (nodes.map (Node.withBase reference))) := by
  induction nodes with
  | nil => exact legible
  | cons node nodes ih =>
    rw [Node.charactersOfAll, legible_append] at legible
    rw [List.map_cons, Node.charactersOfAll, legible_append]
    exact ⟨legible_withBase referenceFit legible.1, ih legible.2⟩

/-- At legible places, legible include elements stand for legible trees. -/
def LegibleInclusion (inclusion : Inclusion) : Prop :=
  ∀ base tag nodes, LegibleBase base → Legible tag.characters → inclusion base tag = .nodes nodes →
    Legible (Node.charactersOfAll nodes)

mutual
theorem legible_of_includeIn? {inclusion : Inclusion} (included : LegibleInclusion inclusion)
    {base : Option String} (baseFit : LegibleBase base) :
    (node : Node) → Legible node.characters → (nodes : List Node) →
      includeIn? inclusion base node = some nodes → Legible (Node.charactersOfAll nodes)
  | .element tag children, legible, nodes, given => by
    obtain ⟨tagFit, childrenFit⟩ := legible_append.mp legible
    have insideFit := legibleBase_baseInside tagFit baseFit
    rw [includeIn?] at given
    split at given
    · split at given
      · cases given
      · split at given
        · cases given
        · rename_i nodes' found
          obtain rfl := Option.some.inj given
          exact included _ tag _ insideFit tagFit found
        · exact legible_of_fallback? included insideFit children childrenFit nodes given
    · split at given
      · cases given
      · obtain ⟨inner, isInner, rfl⟩ := Option.map_eq_some_iff.mp given
        have innerFit := legible_of_includeInAll? included insideFit children childrenFit inner isInner
        rw [Node.charactersOfAll, Node.charactersOfAll, List.append_nil]
        exact legible_append.mpr ⟨tagFit, innerFit⟩
  | .text t, legible, nodes, given => by
    obtain rfl := Option.some.inj given
    rwa [Node.charactersOfAll, Node.charactersOfAll, List.append_nil]
  | .comment t, legible, nodes, given => by
    obtain rfl := Option.some.inj given
    rwa [Node.charactersOfAll, Node.charactersOfAll, List.append_nil]
  | .instruction target data, legible, nodes, given => by
    obtain rfl := Option.some.inj given
    rwa [Node.charactersOfAll, Node.charactersOfAll, List.append_nil]

theorem legible_of_includeInAll? {inclusion : Inclusion} (included : LegibleInclusion inclusion)
    {base : Option String} (baseFit : LegibleBase base) :
    (nodes : List Node) → Legible (Node.charactersOfAll nodes) → (others : List Node) →
      includeInAll? inclusion base nodes = some others → Legible (Node.charactersOfAll others)
  | [], _, others, given => by
    obtain rfl := Option.some.inj given
    simp [Node.charactersOfAll, Legible]
  | node :: nodes, legible, others, given => by
    rw [Node.charactersOfAll, legible_append] at legible
    rw [includeInAll?] at given
    obtain ⟨first, isFirst, given⟩ := Option.bind_eq_some_iff.mp given
    obtain ⟨rest, isRest, given⟩ := Option.bind_eq_some_iff.mp given
    obtain rfl := Option.some.inj given
    rw [Node.charactersOfAll_append, legible_append]
    exact ⟨legible_of_includeIn? included baseFit node legible.1 first isFirst,
      legible_of_includeInAll? included baseFit nodes legible.2 rest isRest⟩

theorem legible_of_fallback? {inclusion : Inclusion} (included : LegibleInclusion inclusion)
    {base : Option String} (baseFit : LegibleBase base) :
    (nodes : List Node) → Legible (Node.charactersOfAll nodes) → (others : List Node) →
      fallback? inclusion base nodes = some others → Legible (Node.charactersOfAll others)
  | [], _, others, given => by cases given
  | .element tag children :: nodes, legible, others, given => by
    rw [Node.charactersOfAll, Node.characters, legible_append, legible_append] at legible
    obtain ⟨⟨tagFit, childrenFit⟩, below⟩ := legible
    rw [fallback?] at given
    split at given
    · exact legible_of_includeInAll? included (legibleBase_baseInside tagFit baseFit) children
        childrenFit others given
    · exact legible_of_fallback? included baseFit nodes below others given
  | .text t :: nodes, legible, others, given => by
    rw [Node.charactersOfAll, legible_append] at legible
    exact legible_of_fallback? included baseFit nodes legible.2 others given
  | .comment t :: nodes, legible, others, given => by
    rw [Node.charactersOfAll, legible_append] at legible
    exact legible_of_fallback? included baseFit nodes legible.2 others given
  | .instruction target data :: nodes, legible, others, given => by
    rw [Node.charactersOfAll, legible_append] at legible
    exact legible_of_fallback? included baseFit nodes legible.2 others given
end

theorem legible_of_includedText? {encoding : Option String} {bytes : List UInt8} {text : String}
    (given : includedText? encoding bytes = some text) : Legible text.toList := by
  have checked {cs : List Char}
      (given : (if cs.all isXmlChar then some (String.ofList cs) else none) = some text) :
      Legible text.toList := by
    split at given
    · rename_i fits
      obtain rfl := Option.some.inj given
      rw [String.toList_ofList]
      exact List.all_eq_true.mp fits
    · cases given
  unfold includedText? at given
  split at given
  · obtain ⟨encoding, _, given⟩ := Option.bind_eq_some_iff.mp given
    obtain ⟨cs, _, given⟩ := Option.bind_eq_some_iff.mp given
    exact checked given
  · obtain ⟨encoding, _, given⟩ := Option.bind_eq_some_iff.mp given
    obtain ⟨cs, _, given⟩ := Option.bind_eq_some_iff.mp given
    exact checked given

theorem legibleInclusion_inclusionOf (store : FileStore) (expand : Bool) (depthLimit : Option Nat)
    (fuel : Nat) (active : List String) :
    LegibleInclusion (inclusionOf store expand depthLimit fuel active) := by
  induction fuel generalizing active with
  | zero =>
    intro base tag nodes baseFit tagFit found
    cases found
  | succ fuel ih =>
    intro base tag nodes baseFit tagFit found
    rw [inclusionOf] at found
    simp only at found
    have hrefFit := legible_plain? tagFit "href"
    have placeFit := Location.legible_resolve baseFit hrefFit
    split at found
    · cases found
    · split at found
      · split at found
        · cases found
        · split at found
          · cases found
          · cases found
          · split at found
            · cases found
            · rename_i root parsed
              split at found
              · cases found
              · rename_i inner isInner
                obtain rfl := Included.nodes.inj found
                have innerFit := legible_of_includeIn? (ih _) (legibleBase_some placeFit) root
                  (legible_of_parse? parsed) inner isInner
                exact legible_map_withBase (Location.legible_relative placeFit) innerFit
      · cases found
      · cases found
      · split at found
        · rename_i text isText
          obtain rfl := Included.nodes.inj found
          rw [Node.charactersOfAll, Node.charactersOfAll, List.append_nil]
          exact legible_of_includedText? isText
        · cases found
      · cases found

theorem legible_of_includeInRoot? {store : FileStore} {expand : Bool} {depthLimit : Option Nat}
    {base : Option String} (baseFit : LegibleBase base) {root root' : Node}
    (legible : Legible root.characters)
    (given : includeInRoot? store expand depthLimit base root = some root') :
    Legible root'.characters := by
  obtain ⟨nodes, included, given⟩ := Option.bind_eq_some_iff.mp given
  have nodesFit := legible_of_includeIn?
    (legibleInclusion_inclusionOf store expand depthLimit inclusionDepth base.toList) baseFit root
    legible nodes included
  split at given
  · split at given
    · obtain rfl := Option.some.inj given
      exact legible
    · obtain rfl := Option.some.inj given
      rwa [Node.charactersOfAll, Node.charactersOfAll, List.append_nil] at nodesFit
  · obtain rfl := Option.some.inj given
    exact legible

end XmlRecords.Xml
