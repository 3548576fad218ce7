import Mathlib.Data.List.Infix
import XmlRecords.Proofs.LexedCharacters
import XmlRecords.Proofs.Outcomes
import XmlRecords.Xml.Document

/-!
The characters of declarations: entities and defaults of attributes hold what documents may hold,
and what is left after a declaration is an end of the document.
-/

set_option autoImplicit false
set_option relaxedAutoImplicit false

namespace XmlRecords.Xml

/-! ### The declaration at the start -/

theorem suffix_of_takeSetting? {name : String} {isValue : List Char → Bool} {cs rest : List Char}
    {value : Option String} (taken : takeSetting? name isValue cs = some (value, rest)) :
    rest <:+ cs := by
  unfold takeSetting? at taken
  split at taken
  · obtain ⟨_, rfl⟩ := Prod.mk.inj (Option.some.inj taken)
    exact List.suffix_rfl
  · rename_i named isNamed
    obtain ⟨blank, isBlank, isName⟩ := Option.bind_eq_some_iff.mp isNamed
    obtain ⟨equals, isEquals, taken⟩ := Option.bind_eq_some_iff.mp taken
    obtain ⟨⟨body, after⟩, quoted, taken⟩ := Option.bind_eq_some_iff.mp taken
    have ends : after <:+ cs := (parts_of_takeQuoted? quoted).2.trans
      ((suffix_of_takeEquals? isEquals).trans
        ((suffix_of_dropText? isName).trans (suffix_of_skipBlanks? isBlank)))
    simp only at taken
    split at taken
    · obtain ⟨_, rfl⟩ := Prod.mk.inj (Option.some.inj taken)
      exact ends
    · cases taken

theorem suffix_of_takeDeclaration? {cs rest : List Char} {declaration : Option Declaration}
    (taken : takeDeclaration? cs = some (declaration, rest)) : rest <:+ cs := by
  unfold takeDeclaration? at taken
  split at taken
  · obtain ⟨_, rfl⟩ := Prod.mk.inj (Option.some.inj taken)
    exact List.suffix_rfl
  · rename_i started isStart
    split at taken
    · obtain ⟨_, rfl⟩ := Prod.mk.inj (Option.some.inj taken)
      exact List.suffix_rfl
    · obtain ⟨⟨version, versioned⟩, isVersion, taken⟩ := Option.bind_eq_some_iff.mp taken
      obtain ⟨⟨encoding, encoded⟩, isEncoding, taken⟩ := Option.bind_eq_some_iff.mp taken
      obtain ⟨⟨standalone, stood⟩, isStandalone, taken⟩ := Option.bind_eq_some_iff.mp taken
      obtain ⟨closed, isClosed, taken⟩ := Option.bind_eq_some_iff.mp taken
      obtain ⟨_, rfl⟩ := Prod.mk.inj (Option.some.inj taken)
      calc closed <:+ skipBlanks stood := suffix_of_dropText? isClosed
        _ <:+ stood := skipBlanks_suffix stood
        _ <:+ encoded := suffix_of_takeSetting? isStandalone
        _ <:+ versioned := suffix_of_takeSetting? isEncoding
        _ <:+ started := suffix_of_takeSetting? isVersion
        _ <:+ cs := suffix_of_dropText? isStart

theorem suffix_of_takeDocumentDeclaration? {cs rest : List Char} {declaration : Option Declaration}
    (taken : takeDocumentDeclaration? cs = some (declaration, rest)) : rest <:+ cs := by
  obtain ⟨⟨declaration', after⟩, isDeclaration, taken⟩ := Option.bind_eq_some_iff.mp taken
  have ends := suffix_of_takeDeclaration? isDeclaration
  cases declaration' with
  | none =>
    obtain ⟨_, rfl⟩ := Prod.mk.inj (Option.some.inj taken)
    exact ends
  | some d =>
    simp only at taken
    split at taken
    · obtain ⟨_, rfl⟩ := Prod.mk.inj (Option.some.inj taken)
      exact ends
    · cases taken

/-! ### Declarations -/

/-- Holds of entities other than those with a text that documents may not hold. -/
def Entity.IsLegible (e : Entity) : Prop := ∀ text, e = .internal text → Legible text

def AttributeDecl.IsLegible (a : AttributeDecl) : Prop :=
  ∀ value, a.default = some value → Legible value.toList

structure Declarations.IsLegible (d : Declarations) : Prop where
  entities : ∀ e ∈ d.entities, e.2.IsLegible
  parameters : ∀ e ∈ d.parameters, e.2.IsLegible
  attributes : ∀ a ∈ d.attributes, a.IsLegible

namespace Declarations

variable {d : Declarations}

theorem isLegible_empty : empty.IsLegible where
  entities := by simp [empty]
  parameters := by simp [empty]
  attributes := by simp [empty]

theorem IsLegible.entity (fit : d.IsLegible) {name : String} {text : List Char}
    (found : d.entity? name = some (.internal text)) : Legible text := by
  obtain ⟨e, isFirst, same⟩ := Option.map_eq_some_iff.mp found
  exact fit.entities e (List.mem_of_find?_eq_some isFirst) text same

theorem IsLegible.parameter (fit : d.IsLegible) {name : String} {text : List Char}
    (found : d.parameter? name = some (.internal text)) : Legible text := by
  obtain ⟨e, isFirst, same⟩ := Option.map_eq_some_iff.mp found
  exact fit.parameters e (List.mem_of_find?_eq_some isFirst) text same

theorem IsLegible.addEntity (fit : d.IsLegible) (isParameter : Bool) (name : String) {e : Entity}
    (legible : e.IsLegible) : (d.addEntity isParameter name e).IsLegible := by
  have added {entries : List (String × Entity)} (before : ∀ e ∈ entries, e.2.IsLegible) :
      ∀ entry ∈ entries ++ [(name, e)], entry.2.IsLegible := by
    intro entry member
    rcases List.mem_append.mp member with old | new
    · exact before entry old
    · rw [List.mem_singleton.mp new]
      exact legible
  cases isParameter with
  | true => exact ⟨fit.entities, added fit.parameters, fit.attributes⟩
  | false => exact ⟨added fit.entities, fit.parameters, fit.attributes⟩

theorem IsLegible.addAttribute (fit : d.IsLegible) {a : AttributeDecl} (legible : a.IsLegible) :
    (d.addAttribute a).IsLegible := by
  unfold Declarations.addAttribute
  split
  · exact fit
  · refine ⟨fit.entities, fit.parameters, fun b member => ?_⟩
    rcases List.mem_append.mp member with old | new
    · exact fit.attributes b old
    · rw [List.mem_singleton.mp new]
      exact legible

end Declarations

/-! ### Attribute values -/

theorem isXmlChar_spaceForBlank {c : Char} (fit : isXmlChar c = true) :
    isXmlChar (spaceForBlank c) = true := by
  unfold spaceForBlank
  split
  · decide
  · exact fit

/-- A declared text stands in a value as its pieces do, one level of entities further down. -/
theorem legible_of_expandValue? {d : Declarations} (fit : d.IsLegible) {undeclared : Undeclared}
    {fuel : Nat} {pieces : List Piece} (legible : ∀ piece ∈ pieces, piece.IsLegible) {cs : List Char}
    (given : expandValue? d undeclared fuel pieces = some cs) : Legible cs := by
  induction fuel generalizing pieces cs with
  | zero =>
    intro c member
    obtain ⟨piece, inside, same⟩ := exists_of_mapM_eq_some given member
    have pieceFit := legible piece inside
    cases piece with
    | literal d =>
      obtain rfl := Option.some.inj same
      exact isXmlChar_spaceForBlank pieceFit
    | character d =>
      obtain rfl := Option.some.inj same
      exact pieceFit
    | entity name => cases same
  | succ fuel ih =>
    obtain ⟨parts, isParts, rfl⟩ := Option.map_eq_some_iff.mp given
    intro c member
    obtain ⟨part, isPart, here⟩ := List.mem_flatten.mp member
    obtain ⟨piece, inside, same⟩ := exists_of_mapM_eq_some isParts isPart
    have pieceFit := legible piece inside
    cases piece with
    | literal d =>
      obtain rfl := Option.some.inj same
      rw [List.mem_singleton.mp here]
      exact isXmlChar_spaceForBlank pieceFit
    | character d =>
      obtain rfl := Option.some.inj same
      rw [List.mem_singleton.mp here]
      exact pieceFit
    | entity name =>
      simp only at same
      split at same
      · rename_i text found
        split at same
        · cases same
        · obtain ⟨inner, isInner, expanded⟩ := Option.bind_eq_some_iff.mp same
          exact ih (legible_of_pieces? (fit.entity found) isInner) expanded c here
      · cases same
      · split at same
        · cases same
        · obtain rfl := Option.some.inj same
          cases here

theorem legible_collapseSpaces {cs : List Char} (legible : Legible cs) :
    Legible (collapseSpaces cs) := by
  refine legible_intercalate (legible_of_all (by decide)) fun part member c inside => ?_
  exact legible c (mem_of_mem_splitOnP (List.mem_filter.mp member).1 inside).2

theorem legible_normalize (isText : Bool) {value : List Char} (legible : Legible value) :
    Legible (AttributeDecl.normalize isText value).toList := by
  rw [AttributeDecl.normalize, String.toList_ofList]
  split
  · exact legible
  · exact legible_collapseSpaces legible

/-! ### Entities -/

theorem legible_of_walk {reading : Option (List Char)} {cs : List Char} (legible : Legible cs)
    (before : ∀ read, reading = some read → Legible read) {text : List Char}
    (given : replacementText?.walk reading cs = some text) : Legible text := by
  induction cs generalizing reading text with
  | nil =>
    cases reading with
    | none =>
      obtain rfl := Option.some.inj given
      simp [Legible]
    | some read => cases given
  | cons c cs ih =>
    obtain ⟨here, below⟩ := List.forall_mem_cons.mp legible
    have noneRead : ∀ read, (none : Option (List Char)) = some read → Legible read := by simp
    cases reading with
    | none =>
      rw [replacementText?.walk] at given
      split at given
      · exact ih below (by simp [Legible]) given
      · obtain ⟨rest, isRest, rfl⟩ := Option.map_eq_some_iff.mp given
        exact List.forall_mem_cons.mpr ⟨here, ih below noneRead isRest⟩
    | some read =>
      have readFit := before read rfl
      rw [replacementText?.walk] at given
      split at given
      · split at given
        · rename_i d digits isPiece _
          obtain ⟨rest, isRest, rfl⟩ := Option.map_eq_some_iff.mp given
          exact List.forall_mem_cons.mpr
            ⟨legible_of_reference? isPiece, ih below noneRead isRest⟩
        · rename_i isPiece _
          obtain ⟨rest, isRest, rfl⟩ := Option.map_eq_some_iff.mp given
          have nameFit : Legible read.reverse := fun c member => readFit c (List.mem_reverse.mp member)
          refine legible_append.mpr ⟨?_, ih below noneRead isRest⟩
          refine List.forall_mem_cons.mpr ⟨by decide, ?_⟩
          exact legible_append.mpr ⟨nameFit, legible_of_all (by decide)⟩
        · cases given
      · refine ih below (fun read' same => ?_) given
        obtain rfl := Option.some.inj same
        exact List.forall_mem_cons.mpr ⟨here, readFit⟩

theorem legible_of_replacementText? {body text : List Char} (legible : Legible body)
    (given : replacementText? body = some text) : Legible text := by
  unfold replacementText? at given
  split at given
  · cases given
  · exact legible_of_walk legible (by simp) given

theorem suffix_of_takeExternalId? {needsSystem : Bool} {cs rest : List Char}
    {reference : Option String} (taken : takeExternalId? needsSystem cs = some (reference, rest)) :
    rest <:+ cs := by
  unfold takeExternalId? at taken
  split at taken
  · rename_i named isNamed
    obtain ⟨blank, isBlank, taken⟩ := Option.bind_eq_some_iff.mp taken
    obtain ⟨⟨body, after⟩, quoted, taken⟩ := Option.bind_eq_some_iff.mp taken
    obtain ⟨_, rfl⟩ := Prod.mk.inj (Option.some.inj taken)
    calc after <:+ blank := (parts_of_takeQuoted? quoted).2
      _ <:+ named := suffix_of_skipBlanks? isBlank
      _ <:+ cs := suffix_of_dropText? ‹_›
  · rename_i named isNamed
    obtain ⟨blank, isBlank, taken⟩ := Option.bind_eq_some_iff.mp taken
    obtain ⟨⟨body, after⟩, quoted, taken⟩ := Option.bind_eq_some_iff.mp taken
    have ends : after <:+ cs := (parts_of_takeQuoted? quoted).2.trans
      ((suffix_of_skipBlanks? isBlank).trans (suffix_of_dropText? ‹_›))
    simp only at taken
    split at taken
    · cases taken
    · split at taken
      · rename_i reference' after' isReference
        obtain ⟨_, rfl⟩ := Prod.mk.inj (Option.some.inj taken)
        obtain ⟨blank', isBlank', quoted'⟩ := Option.bind_eq_some_iff.mp isReference
        exact (parts_of_takeQuoted? quoted').2.trans ((suffix_of_skipBlanks? isBlank').trans ends)
      · split at taken
        · cases taken
        · obtain ⟨_, rfl⟩ := Prod.mk.inj (Option.some.inj taken)
          exact ends
  · cases taken

theorem suffix_of_closeDeclaration? {cs rest : List Char} (taken : closeDeclaration? cs = some rest) :
    rest <:+ cs :=
  (suffix_of_dropText? taken).trans (skipBlanks_suffix cs)

theorem legible_of_takeEntityDecl? {s : Surroundings} {d d' : Declarations} (fit : d.IsLegible)
    {cs rest : List Char} (legible : Legible cs)
    (taken : takeEntityDecl? s d cs = some (d', rest)) : d'.IsLegible ∧ rest <:+ cs := by
  obtain ⟨blank, isBlank, taken⟩ := Option.bind_eq_some_iff.mp taken
  have blankEnds := suffix_of_skipBlanks? isBlank
  extract_lets named at taken
  -- what follows is the same with a percent sign and without
  have after (isParameter : Bool) (marked : List Char) (markedEnds : marked <:+ cs)
      (taken : named (isParameter, marked) = some (d', rest)) : d'.IsLegible ∧ rest <:+ cs := by
    obtain ⟨⟨name, afterName⟩, isName, taken⟩ := Option.bind_eq_some_iff.mp taken
    simp only at taken
    split at taken
    · cases taken
    · obtain ⟨start, isStart, taken⟩ := Option.bind_eq_some_iff.mp taken
      have startEnds : start <:+ cs := (suffix_of_skipBlanks? isStart).trans
        ((suffix_of_takeName? isName).trans markedEnds)
      split at taken
      · rename_i body afterBody quoted
        obtain ⟨inside, bodyEnds⟩ := parts_of_takeQuoted? quoted
        obtain ⟨text, isText, taken⟩ := Option.bind_eq_some_iff.mp taken
        obtain ⟨closed, isClosed, taken⟩ := Option.bind_eq_some_iff.mp taken
        obtain ⟨rfl, rfl⟩ := Prod.mk.inj (Option.some.inj taken)
        have textFit : Legible text := legible_of_replacementText?
          (fun c member => legible c (startEnds.subset (inside member))) isText
        have entityFit : (Entity.internal text).IsLegible := by
          rintro text' same
          obtain rfl := Entity.internal.inj same
          exact textFit
        exact ⟨fit.addEntity isParameter name entityFit,
          (suffix_of_closeDeclaration? isClosed).trans (bodyEnds.trans startEnds)⟩
      · obtain ⟨⟨reference, afterId⟩, isId, taken⟩ := Option.bind_eq_some_iff.mp taken
        have idEnds := (suffix_of_takeExternalId? isId).trans startEnds
        simp only at taken
        split at taken
        · rename_i keyword isKeyword
          obtain ⟨skipped, isSkipped, found⟩ := Option.bind_eq_some_iff.mp isKeyword
          split at taken
          · cases taken
          · obtain ⟨target, isTarget, taken⟩ := Option.bind_eq_some_iff.mp taken
            obtain ⟨⟨named', afterNamed⟩, isNamed, taken⟩ := Option.bind_eq_some_iff.mp taken
            obtain ⟨closed, isClosed, taken⟩ := Option.bind_eq_some_iff.mp taken
            obtain ⟨rfl, rfl⟩ := Prod.mk.inj (Option.some.inj taken)
            refine ⟨fit.addEntity false name (by simp [Entity.IsLegible]), ?_⟩
            calc closed <:+ afterNamed := suffix_of_closeDeclaration? isClosed
              _ <:+ target := suffix_of_takeName? isNamed
              _ <:+ keyword := suffix_of_skipBlanks? isTarget
              _ <:+ skipped := suffix_of_dropText? found
              _ <:+ afterId := suffix_of_skipBlanks? isSkipped
              _ <:+ cs := idEnds
        · obtain ⟨closed, isClosed, taken⟩ := Option.bind_eq_some_iff.mp taken
          obtain ⟨rfl, rfl⟩ := Prod.mk.inj (Option.some.inj taken)
          exact ⟨fit.addEntity isParameter name (by simp [Entity.IsLegible]),
            (suffix_of_closeDeclaration? isClosed).trans idEnds⟩
  split at taken
  · rename_i afterSign
    obtain ⟨⟨isParameter, marked⟩, isMarked, taken⟩ := Option.bind_eq_some_iff.mp taken
    obtain ⟨skipped, isSkipped, same⟩ := Option.map_eq_some_iff.mp isMarked
    obtain ⟨rfl, rfl⟩ := Prod.mk.inj same
    exact after true skipped ((suffix_of_skipBlanks? isSkipped).trans
      ((List.suffix_cons '%' afterSign).trans blankEnds)) taken
  · exact after false blank blankEnds taken

/-! ### Attributes -/

theorem suffix_of_takeChoices? {word : List Char → Option (List Char)}
    (wordEnds : ∀ cs rest, word cs = some rest → rest <:+ cs) {fuel : Nat} {cs rest : List Char}
    (taken : takeChoices? word fuel cs = some rest) : rest <:+ cs := by
  induction fuel generalizing cs with
  | zero => cases taken
  | succ fuel ih =>
    obtain ⟨after, isWord, taken⟩ := Option.bind_eq_some_iff.mp taken
    have ends : after <:+ cs := (wordEnds _ _ isWord).trans (skipBlanks_suffix cs)
    split at taken
    · rename_i rest' skipped
      obtain rfl := Option.some.inj taken
      exact (suffix_of_skipBlanks skipped).trans ends
    · rename_i rest' skipped
      exact (ih taken).trans ((suffix_of_skipBlanks skipped).trans ends)
    · cases taken

theorem suffix_of_takeNameToken? {cs rest : List Char} (taken : takeNameToken? cs = some rest) :
    rest <:+ cs := by
  unfold takeNameToken? at taken
  simp only at taken
  split at taken
  · cases taken
  · obtain rfl := Option.some.inj taken
    exact List.drop_suffix _ cs

theorem suffix_of_takeAttributeType? {cs rest : List Char} {isText : Bool}
    (taken : takeAttributeType? cs = some (isText, rest)) : rest <:+ cs := by
  unfold takeAttributeType? at taken
  split at taken
  · obtain ⟨_, rfl⟩ := Prod.mk.inj (Option.some.inj taken)
    exact suffix_of_dropText? ‹_›
  · rename_i rest' found _
    obtain ⟨_, rfl⟩ := Prod.mk.inj (Option.some.inj taken)
    obtain ⟨keyword, _, dropped⟩ := List.exists_of_findSome?_eq_some found
    exact suffix_of_dropText? dropped
  · rename_i listed _ _
    obtain ⟨after, isAfter, same⟩ := Option.map_eq_some_iff.mp taken
    obtain ⟨_, rfl⟩ := Prod.mk.inj same
    exact (suffix_of_takeChoices? (fun _ _ => suffix_of_takeNameToken?) isAfter).trans
      (List.suffix_cons '(' listed)
  · obtain ⟨dropped, isDropped, taken⟩ := Option.bind_eq_some_iff.mp taken
    obtain ⟨blank, isBlank, taken⟩ := Option.bind_eq_some_iff.mp taken
    have ends := (suffix_of_skipBlanks? isBlank).trans (suffix_of_dropText? isDropped)
    split at taken
    · rename_i listed
      obtain ⟨after, isAfter, same⟩ := Option.map_eq_some_iff.mp taken
      obtain ⟨_, rfl⟩ := Prod.mk.inj same
      refine (suffix_of_takeChoices? (fun cs rest named => ?_) isAfter).trans
        ((List.suffix_cons '(' listed).trans ends)
      obtain ⟨⟨name, named⟩, isName, rfl⟩ := Option.map_eq_some_iff.mp named
      exact suffix_of_takeName? isName
    · cases taken

theorem legible_of_takeDefault? {s : Surroundings} {d : Declarations} (fit : d.IsLegible)
    {isText : Bool} {cs rest : List Char} (legible : Legible cs) {default : Option String}
    (taken : takeDefault? s d isText cs = some (default, rest)) :
    (∀ value, default = some value → Legible value.toList) ∧ rest <:+ cs := by
  unfold takeDefault? at taken
  split at taken
  · obtain ⟨rfl, rfl⟩ := Prod.mk.inj (Option.some.inj taken)
    exact ⟨by simp, suffix_of_dropText? ‹_›⟩
  · obtain ⟨rfl, rfl⟩ := Prod.mk.inj (Option.some.inj taken)
    exact ⟨by simp, suffix_of_dropText? ‹_›⟩
  · extract_lets valued at taken
    -- what follows is the same whether the value is fixed or not
    have after (start : List Char) (startEnds : start <:+ cs)
        (taken : valued start = some (default, rest)) :
        (∀ value, default = some value → Legible value.toList) ∧ rest <:+ cs := by
      obtain ⟨⟨pieces, afterValue⟩, isValue, taken⟩ := Option.bind_eq_some_iff.mp taken
      obtain ⟨value, expanded, taken⟩ := Option.bind_eq_some_iff.mp taken
      obtain ⟨rfl, rfl⟩ := Prod.mk.inj (Option.some.inj taken)
      obtain ⟨piecesFit, ends⟩ := legible_of_takeValue? (legible.suffix startEnds) isValue
      refine ⟨?_, ends.trans startEnds⟩
      rintro text same
      obtain rfl := Option.some.inj same
      exact legible_normalize isText (legible_of_expandValue? fit piecesFit expanded)
    split at taken
    · obtain ⟨start, isStart, taken⟩ := Option.bind_eq_some_iff.mp taken
      exact after start ((suffix_of_skipBlanks? isStart).trans (suffix_of_dropText? ‹_›)) taken
    · exact after cs List.suffix_rfl taken

theorem legible_of_takeAttributeDecls? {s : Surroundings} {element : String} {fuel : Nat}
    {d d' : Declarations} (fit : d.IsLegible) {cs rest : List Char} (legible : Legible cs)
    (taken : takeAttributeDecls? s element fuel d cs = some (d', rest)) :
    d'.IsLegible ∧ rest <:+ cs := by
  induction fuel generalizing d cs with
  | zero => cases taken
  | succ fuel ih =>
    rw [takeAttributeDecls?] at taken
    split at taken
    · obtain ⟨rfl, rfl⟩ := Prod.mk.inj (Option.some.inj taken)
      exact ⟨fit, suffix_of_closeDeclaration? ‹_›⟩
    · obtain ⟨blank, isBlank, taken⟩ := Option.bind_eq_some_iff.mp taken
      obtain ⟨⟨name, named⟩, isName, taken⟩ := Option.bind_eq_some_iff.mp taken
      obtain ⟨spaced, isSpaced, taken⟩ := Option.bind_eq_some_iff.mp taken
      obtain ⟨⟨isText, typed⟩, isType, taken⟩ := Option.bind_eq_some_iff.mp taken
      obtain ⟨start, isStart, taken⟩ := Option.bind_eq_some_iff.mp taken
      obtain ⟨⟨default, after⟩, isDefault, taken⟩ := Option.bind_eq_some_iff.mp taken
      have startEnds : start <:+ cs :=
        calc start <:+ typed := suffix_of_skipBlanks? isStart
          _ <:+ spaced := suffix_of_takeAttributeType? isType
          _ <:+ named := suffix_of_skipBlanks? isSpaced
          _ <:+ blank := suffix_of_takeName? isName
          _ <:+ cs := suffix_of_skipBlanks? isBlank
      obtain ⟨defaultFit, ends⟩ := legible_of_takeDefault? fit (legible.suffix startEnds) isDefault
      have afterEnds := ends.trans startEnds
      have added : (d.addAttribute ⟨element, name, isText, default⟩).IsLegible :=
        fit.addAttribute defaultFit
      obtain ⟨d'Fit, restEnds⟩ := ih added (legible.suffix afterEnds) taken
      exact ⟨d'Fit, restEnds.trans afterEnds⟩

/-! ### Elements and what else is declared -/

theorem dropRepetition_suffix (cs : List Char) : dropRepetition cs <:+ cs := by
  unfold dropRepetition
  split
  · exact List.suffix_cons '?' _
  · exact List.suffix_cons '*' _
  · exact List.suffix_cons '+' _
  · exact List.suffix_rfl

theorem suffix_of_takeMixed? {fuel : Nat} {named : Bool} {cs rest : List Char}
    (taken : takeMixed? fuel named cs = some rest) : rest <:+ cs := by
  induction fuel generalizing named cs with
  | zero => cases taken
  | succ fuel ih =>
    rw [takeMixed?] at taken
    split at taken
    · rename_i rest' skipped
      obtain rfl := Option.some.inj taken
      exact (List.suffix_cons '*' rest').trans (suffix_of_skipBlanks skipped)
    · rename_i rest' _ skipped
      split at taken
      · cases taken
      · obtain rfl := Option.some.inj taken
        exact suffix_of_skipBlanks skipped
    · rename_i rest' skipped
      obtain ⟨⟨name, after⟩, isName, taken⟩ := Option.bind_eq_some_iff.mp taken
      calc rest <:+ after := ih taken
        _ <:+ skipBlanks rest' := suffix_of_takeName? isName
        _ <:+ rest' := skipBlanks_suffix rest'
        _ <:+ cs := suffix_of_skipBlanks skipped
    · cases taken

theorem suffix_of_takeParticle?_and_takeGroup? (fuel : Nat) :
    (∀ cs rest, takeParticle? fuel cs = some rest → rest <:+ cs) ∧
      ∀ divider cs rest, takeGroup? fuel divider cs = some rest → rest <:+ cs := by
  induction fuel with
  | zero =>
    constructor
    · intro cs rest taken
      cases taken
    · intro divider cs rest taken
      cases taken
  | succ fuel ih =>
    obtain ⟨particle, group⟩ := ih
    constructor
    · intro cs rest taken
      unfold takeParticle? at taken
      split at taken
      · rename_i inside
        obtain ⟨after, isGroup, rfl⟩ := Option.map_eq_some_iff.mp taken
        calc dropRepetition after <:+ after := dropRepetition_suffix after
          _ <:+ skipBlanks inside := group none _ _ isGroup
          _ <:+ inside := skipBlanks_suffix inside
          _ <:+ '(' :: inside := List.suffix_cons '(' inside
      · obtain ⟨⟨name, after⟩, isName, rfl⟩ := Option.map_eq_some_iff.mp taken
        exact (dropRepetition_suffix after).trans (suffix_of_takeName? isName)
    · intro divider cs rest taken
      rw [takeGroup?] at taken
      obtain ⟨after, isParticle, taken⟩ := Option.bind_eq_some_iff.mp taken
      have ends := particle _ _ isParticle
      split at taken
      · rename_i rest' skipped
        obtain rfl := Option.some.inj taken
        exact (suffix_of_skipBlanks skipped).trans ends
      · rename_i c rest' _ skipped
        split at taken
        · calc rest <:+ skipBlanks rest' := group _ _ _ taken
            _ <:+ rest' := skipBlanks_suffix rest'
            _ <:+ after := suffix_of_skipBlanks skipped
            _ <:+ cs := ends
        · cases taken
      · cases taken

theorem suffix_of_takeContentModel? {cs rest : List Char}
    (taken : takeContentModel? cs = some rest) : rest <:+ cs := by
  unfold takeContentModel? at taken
  split at taken
  · obtain rfl := Option.some.inj taken
    exact suffix_of_dropText? ‹_›
  · obtain rfl := Option.some.inj taken
    exact suffix_of_dropText? ‹_›
  · rename_i inside _ _
    split at taken
    · rename_i mixed isMixed
      calc rest <:+ mixed := suffix_of_takeMixed? taken
        _ <:+ skipBlanks inside := suffix_of_dropText? isMixed
        _ <:+ inside := skipBlanks_suffix inside
        _ <:+ '(' :: inside := List.suffix_cons '(' inside
    · exact (suffix_of_takeParticle?_and_takeGroup? _).1 _ _ taken
  · cases taken

theorem suffix_of_takeElementDecl? {cs rest : List Char} (taken : takeElementDecl? cs = some rest) :
    rest <:+ cs := by
  obtain ⟨blank, isBlank, taken⟩ := Option.bind_eq_some_iff.mp taken
  obtain ⟨⟨name, named⟩, isName, taken⟩ := Option.bind_eq_some_iff.mp taken
  obtain ⟨spaced, isSpaced, taken⟩ := Option.bind_eq_some_iff.mp taken
  obtain ⟨after, isModel, taken⟩ := Option.bind_eq_some_iff.mp taken
  calc rest <:+ after := suffix_of_closeDeclaration? taken
    _ <:+ spaced := suffix_of_takeContentModel? isModel
    _ <:+ named := suffix_of_skipBlanks? isSpaced
    _ <:+ blank := suffix_of_takeName? isName
    _ <:+ cs := suffix_of_skipBlanks? isBlank

theorem suffix_of_takeNotationDecl? {cs rest : List Char}
    (taken : takeNotationDecl? cs = some rest) : rest <:+ cs := by
  obtain ⟨blank, isBlank, taken⟩ := Option.bind_eq_some_iff.mp taken
  obtain ⟨⟨name, named⟩, isName, taken⟩ := Option.bind_eq_some_iff.mp taken
  simp only at taken
  split at taken
  · cases taken
  · obtain ⟨spaced, isSpaced, taken⟩ := Option.bind_eq_some_iff.mp taken
    obtain ⟨⟨reference, after⟩, isId, taken⟩ := Option.bind_eq_some_iff.mp taken
    calc rest <:+ after := suffix_of_closeDeclaration? taken
      _ <:+ spaced := suffix_of_takeExternalId? isId
      _ <:+ named := suffix_of_skipBlanks? isSpaced
      _ <:+ blank := suffix_of_takeName? isName
      _ <:+ cs := suffix_of_skipBlanks? isBlank

theorem legible_of_takeDecl? {s : Surroundings} {d d' : Declarations} (fit : d.IsLegible)
    {cs rest : List Char} (legible : Legible cs) (taken : takeDecl? s d cs = some (d', rest)) :
    d'.IsLegible ∧ rest <:+ cs := by
  unfold takeDecl? at taken
  split at taken
  · rename_i rest'
    obtain ⟨⟨text, after⟩, isComment, same⟩ := Option.map_eq_some_iff.mp taken
    obtain ⟨rfl, rfl⟩ := Prod.mk.inj same
    exact ⟨fit, (suffix_of_takeComment? isComment).trans (List.suffix_append ['!', '-', '-'] rest')⟩
  · rename_i rest'
    obtain ⟨⟨target, data, after⟩, isInstruction, same⟩ := Option.map_eq_some_iff.mp taken
    obtain ⟨rfl, rfl⟩ := Prod.mk.inj same
    exact ⟨fit, (suffix_of_takeInstruction? isInstruction).trans (List.suffix_cons '?' rest')⟩
  · split at taken
    · rename_i isEntity
      have keywordEnds := suffix_of_dropText? isEntity
      obtain ⟨d'Fit, ends⟩ := legible_of_takeEntityDecl? fit (legible.suffix keywordEnds) taken
      exact ⟨d'Fit, ends.trans keywordEnds⟩
    · rename_i isAttributes _
      obtain ⟨blank, isBlank, taken⟩ := Option.bind_eq_some_iff.mp taken
      obtain ⟨⟨element, named⟩, isName, taken⟩ := Option.bind_eq_some_iff.mp taken
      have namedEnds : named <:+ cs := (suffix_of_takeName? isName).trans
        ((suffix_of_skipBlanks? isBlank).trans (suffix_of_dropText? isAttributes))
      obtain ⟨d'Fit, ends⟩ := legible_of_takeAttributeDecls? fit (legible.suffix namedEnds) taken
      exact ⟨d'Fit, ends.trans namedEnds⟩
    · rename_i isElement _ _
      obtain ⟨after, isAfter, same⟩ := Option.map_eq_some_iff.mp taken
      obtain ⟨rfl, rfl⟩ := Prod.mk.inj same
      exact ⟨fit, (suffix_of_takeElementDecl? isAfter).trans (suffix_of_dropText? isElement)⟩
    · rename_i isNotation _ _ _
      obtain ⟨after, isAfter, same⟩ := Option.map_eq_some_iff.mp taken
      obtain ⟨rfl, rfl⟩ := Prod.mk.inj same
      exact ⟨fit, (suffix_of_takeNotationDecl? isAfter).trans (suffix_of_dropText? isNotation)⟩
    · cases taken

/-! ### Document types -/

/-- Declarations stay legible if those in parameter entities, one level further down, do. -/
theorem legible_of_takeDecls?_of_nested {nesting : Nat}
    (nested : ∀ inner, nesting = inner + 1 → ∀ s fuel d d' cs rest, d.IsLegible → Legible cs →
      takeDecls? s inner true fuel d cs = some (d', rest) → d'.IsLegible)
    {s : Surroundings} {inEntity : Bool} {fuel : Nat} {d d' : Declarations} (fit : d.IsLegible)
    {cs rest : List Char} (legible : Legible cs)
    (taken : takeDecls? s nesting inEntity fuel d cs = some (d', rest)) :
    d'.IsLegible ∧ rest <:+ cs := by
  induction fuel generalizing inEntity d d' cs rest with
  | zero =>
    rw [takeDecls?] at taken
    cases taken
  | succ fuel ih =>
    rw [takeDecls?] at taken
    split at taken
    · split at taken
      · obtain ⟨rfl, rfl⟩ := Prod.mk.inj (Option.some.inj taken)
        exact ⟨fit, List.nil_suffix⟩
      · cases taken
    · rename_i rest' skipped
      split at taken
      · cases taken
      · obtain ⟨rfl, rfl⟩ := Prod.mk.inj (Option.some.inj taken)
        exact ⟨fit, suffix_of_skipBlanks skipped⟩
    · rename_i rest' skipped
      obtain ⟨⟨next, after⟩, isDecl, taken⟩ := Option.bind_eq_some_iff.mp taken
      have ends := suffix_of_skipBlanks skipped
      obtain ⟨nextFit, afterEnds⟩ := legible_of_takeDecl? fit (legible.suffix ends) isDecl
      obtain ⟨d'Fit, restEnds⟩ := ih nextFit (legible.suffix (afterEnds.trans ends)) taken
      exact ⟨d'Fit, restEnds.trans (afterEnds.trans ends)⟩
    · rename_i rest' skipped
      obtain ⟨⟨name, named⟩, isName, taken⟩ := Option.bind_eq_some_iff.mp taken
      obtain ⟨marked, isMarked, taken⟩ := Option.bind_eq_some_iff.mp taken
      have ends : marked <:+ cs := (suffix_of_dropText? isMarked).trans
        ((suffix_of_takeName? isName).trans (suffix_of_skipBlanks skipped))
      extract_lets seen going at taken
      have seenFit : seen.IsLegible := ⟨fit.entities, fit.parameters, fit.attributes⟩
      -- what follows is the same whatever the reference stands for
      have after (next : Declarations) (nextFit : next.IsLegible)
          (taken : going next = some (d', rest)) : d'.IsLegible ∧ rest <:+ cs := by
        obtain ⟨d'Fit, restEnds⟩ := ih nextFit (legible.suffix ends) taken
        exact ⟨d'Fit, restEnds.trans ends⟩
      cases nesting with
      | zero => cases taken
      | succ inner =>
        simp only at taken
        split at taken
        · rename_i text found
          obtain ⟨next, isNext, taken⟩ := Option.bind_eq_some_iff.mp taken
          obtain ⟨⟨next', left⟩, isText, rfl⟩ := Option.map_eq_some_iff.mp isNext
          exact after next' (nested inner rfl _ _ _ _ _ _ seenFit (seenFit.parameter found) isText)
            taken
        · split at taken
          · split at taken
            · rename_i text _
              split at taken
              · rename_i fits
                obtain ⟨next, isNext, taken⟩ := Option.bind_eq_some_iff.mp taken
                obtain ⟨⟨next', left⟩, isText, rfl⟩ := Option.map_eq_some_iff.mp isNext
                have textFit : Legible text := List.all_eq_true.mp fits
                exact after next' (nested inner rfl _ _ _ _ _ _ seenFit textFit isText) taken
              · cases taken
            · exact after seen seenFit taken
          · exact after seen seenFit taken
        · cases taken
        · split at taken
          · cases taken
          · exact after seen seenFit taken
    · cases taken

theorem legible_of_takeDecls? {nesting : Nat} {s : Surroundings} {inEntity : Bool} {fuel : Nat}
    {d d' : Declarations} (fit : d.IsLegible) {cs rest : List Char} (legible : Legible cs)
    (taken : takeDecls? s nesting inEntity fuel d cs = some (d', rest)) :
    d'.IsLegible ∧ rest <:+ cs := by
  induction nesting generalizing s inEntity fuel d d' cs rest with
  | zero => exact legible_of_takeDecls?_of_nested (by simp) fit legible taken
  | succ nesting ih =>
    refine legible_of_takeDecls?_of_nested ?_ fit legible taken
    rintro inner same s fuel d d' cs rest fit legible taken
    obtain rfl := Nat.succ.inj same
    exact (ih fit legible taken).1

theorem legible_of_takeDocumentType? {s : Surroundings} {d : Declarations} {cs rest : List Char}
    (legible : Legible cs) (taken : takeDocumentType? s cs = some (d, rest)) :
    d.IsLegible ∧ rest <:+ cs := by
  obtain ⟨blank, isBlank, taken⟩ := Option.bind_eq_some_iff.mp taken
  obtain ⟨⟨name, named⟩, isName, taken⟩ := Option.bind_eq_some_iff.mp taken
  have namedEnds := (suffix_of_takeName? isName).trans (suffix_of_skipBlanks? isBlank)
  extract_lets bare going at taken
  -- what follows is the same with an external identifier and without
  have after (hasExternalSubset : Bool) (start : List Char) (startEnds : start <:+ cs)
      (taken : going (hasExternalSubset, start) = some (d, rest)) : d.IsLegible ∧ rest <:+ cs := by
    have bareFit : Declarations.IsLegible { bare with hasExternalSubset } :=
      ⟨Declarations.isLegible_empty.entities, Declarations.isLegible_empty.parameters,
        Declarations.isLegible_empty.attributes⟩
    simp only [going] at taken
    split at taken
    · rename_i rest' skipped
      obtain ⟨rfl, rfl⟩ := Prod.mk.inj (Option.some.inj taken)
      exact ⟨bareFit, (suffix_of_skipBlanks skipped).trans startEnds⟩
    · rename_i rest' skipped
      have ends := (suffix_of_skipBlanks skipped).trans startEnds
      obtain ⟨⟨d', listed⟩, isSubset, taken⟩ := Option.bind_eq_some_iff.mp taken
      obtain ⟨closed, isClosed, taken⟩ := Option.bind_eq_some_iff.mp taken
      obtain ⟨rfl, rfl⟩ := Prod.mk.inj (Option.some.inj taken)
      obtain ⟨dFit, listedEnds⟩ := legible_of_takeDecls? bareFit (legible.suffix ends) isSubset
      exact ⟨dFit, (suffix_of_closeDeclaration? isClosed).trans (listedEnds.trans ends)⟩
    · cases taken
  simp only at taken
  split at taken
  · rename_i reference start isId
    obtain ⟨spaced, isSpaced, isId⟩ := Option.bind_eq_some_iff.mp isId
    exact after true start ((suffix_of_takeExternalId? isId).trans
      ((suffix_of_skipBlanks? isSpaced).trans namedEnds)) taken
  · exact after false named namedEnds taken

theorem suffix_of_skipMisc? {fuel : Nat} {cs rest : List Char}
    (taken : skipMisc? fuel cs = some rest) : rest <:+ cs := by
  induction fuel generalizing cs with
  | zero => cases taken
  | succ fuel ih =>
    rw [skipMisc?] at taken
    split at taken
    · rename_i rest' skipped
      obtain ⟨⟨text, after⟩, isComment, taken⟩ := Option.bind_eq_some_iff.mp taken
      calc rest <:+ after := ih taken
        _ <:+ rest' := suffix_of_takeComment? isComment
        _ <:+ '!' :: '-' :: '-' :: rest' := List.suffix_append ['!', '-', '-'] rest'
        _ <:+ cs := suffix_of_skipBlanks skipped
    · rename_i rest' skipped
      obtain ⟨⟨target, data, after⟩, isInstruction, taken⟩ := Option.bind_eq_some_iff.mp taken
      calc rest <:+ after := ih taken
        _ <:+ rest' := suffix_of_takeInstruction? isInstruction
        _ <:+ '?' :: rest' := List.suffix_cons '?' rest'
        _ <:+ cs := suffix_of_skipBlanks skipped
    · obtain rfl := Option.some.inj taken
      exact skipBlanks_suffix cs

theorem legible_of_takeProlog? {s : Surroundings} {d : Declarations} {cs rest : List Char}
    (legible : Legible cs) (taken : takeProlog? s cs = some (d, rest)) :
    d.IsLegible ∧ rest <:+ cs := by
  obtain ⟨start, isStart, taken⟩ := Option.bind_eq_some_iff.mp taken
  have startEnds := suffix_of_skipMisc? isStart
  split at taken
  · rename_i typed isType
    have typedEnds := (suffix_of_dropText? isType).trans startEnds
    obtain ⟨dFit, ends⟩ := legible_of_takeDocumentType? (legible.suffix typedEnds) taken
    exact ⟨dFit, ends.trans typedEnds⟩
  · obtain ⟨rfl, rfl⟩ := Prod.mk.inj (Option.some.inj taken)
    exact ⟨Declarations.isLegible_empty, startEnds⟩

end XmlRecords.Xml
