import XmlRecords.Proofs.IntakeFaults

/-!
Text written as the content of an element. Escaping leaves no markup in it, and the references that it
makes are undone one by one. What a reader of documents does before that is not: it takes a carriage
return, which escaping leaves in content as it is, for the end of a line. A text is found again if it
has none.
-/

set_option autoImplicit false
set_option relaxedAutoImplicit false

namespace XmlRecords.Xml

open Text

/-! ### No markup -/

/-- Characters that spell a text in content, and nothing but a text. -/
structure SpellsText (s : String) (cs : List Char) : Prop where
  /-- No tag, comment, instruction or section begins or ends in them. -/
  noMarkup : '<' ∉ cs ∧ '>' ∉ cs
  /-- Wherever they stand in content, the lexer takes them for character data up to the next markup. -/
  lexed : ∀ rest, Lexes (textTokens s) (cs ++ '<' :: rest) ('<' :: rest)
  /-- They refer to no entity, and stand for the text once the characters referred to are put in,
  whatever the entities and prefixes in scope. -/
  decoded : ∃ pieces, pieces? none cs = some pieces ∧ (∀ piece ∈ pieces, piece.isEntity = false) ∧
    ∀ expand prefixes, resolvePieces? expand prefixes [] pieces = some (textNode s.toList.reverse)

theorem isEntity_contentPiece (c : Char) : (contentPiece c).isEntity = false := by
  rcases contentPiece_cases c with same | same <;> rw [same] <;> rfl

theorem spellsText_escapeContent (s : String) : SpellsText s (escapeContent s).toList := by
  rw [escapeContent, String.toList_ofList]
  refine ⟨⟨less_not_mem_escaped _, more_not_mem_escaped _⟩, lexes_content s, s.toList.map contentPiece,
    pieces?_flatMap spells_content _, ?_, ?_⟩
  · intro piece member
    obtain ⟨c, _, rfl⟩ := List.mem_map.mp member
    exact isEntity_contentPiece c
  · intro expand prefixes
    rw [resolvePieces?_eq expand prefixes contentPiece_cases, List.append_nil]

/-! ### An element with text inside -/

def elementOf (name : String) (text : List Char) : Node :=
  .element (plainTag name []) (textNode text.reverse)

theorem elementOf_inj {name : String} {cs ds : List Char} :
    elementOf name cs = elementOf name ds ↔ cs = ds := by
  refine ⟨?_, congrArg (elementOf name)⟩
  unfold elementOf textNode
  cases cs <;> cases ds <;> simp [← String.toList_inj]

/-- The characters of an element with a text inside, from its tag to the end of its line. -/
def textElementChars (name content : String) : List Char :=
  '<' :: (openingChars name [] ++ (content.toList.flatMap escapedInContent ++
    '<' :: (closingChars name ++ ['\n'])))

theorem toList_textElement (name content : String) (depth : Int) :
    (textElement name content depth).toList =
      (indent depth).toList ++ textElementChars name content := by
  simp [textElement, textElementChars, escapeContent, openingChars, closingChars]

theorem isXmlChar_of_mem_textElement {name : String} (plain : IsPlainName name) {content : String}
    (legible : ∀ c ∈ content.toList, isXmlChar c = true) {depth : Int} {c : Char}
    (member : c ∈ (textElement name content depth).toList) : isXmlChar c = true := by
  -- the characters of the element are among those of a row of which it is the only element
  have row : (Forest.text name content .nil).Plain := ⟨plain, legible, trivial⟩
  have inRow : c ∈ (Forest.text name content .nil).chars depth depth := by
    simp only [toList_textElement, textElementChars, List.mem_append, List.mem_cons,
      List.not_mem_nil, or_false] at member
    simp only [Forest.chars, lineStart, List.mem_append, List.mem_cons]
    tauto
  exact Forest.isXmlChar_of_mem_chars row inRow

theorem content?_textElementChars {name : String} (plain : IsPlainName name) (content : String) :
    content? (textElementChars name content) =
      some [.element name (rawAttributes []) (textRaws content), .characters [.literal '\n']] := by
  have lineEnd : Lexes [.characters [.literal '\n']] ['\n'] [] :=
    lexes_characters (by decide) (by decide) (by simp)
  have lexed : Lexes (openingToken name [] :: (textTokens content ++
      [Token.closing name, .characters [.literal '\n']])) (textElementChars name content) [] :=
    (lexes_opening plain plainAttributes_nil _).trans ((lexes_content content _).trans
      ((lexes_closing plain ['\n']).trans lineEnd))
  rw [content?, lexed.tokens?, Option.bind_some, assemble?_opening, assemble?_textTokens,
    assemble?_closing, assemble?_characters]
  unfold textRaws
  split <;> rfl

theorem normalizeLines_textElement {name : String} (plain : IsPlainName name) (content : String)
    (depth : Int) : normalizeLines false (textElement name content depth).toList =
      (indent depth).toList ++
        textElementChars name (String.ofList (normalizeLines false content.toList)) := by
  have before : '\r' ∉ (indent depth).toList ++ '<' :: openingChars name [] := by
    simp only [List.mem_append, List.mem_cons, not_or]
    exact ⟨fun member => absurd (mem_indent member) (by decide), by decide,
      fun member => (mem_openingChars plain plainAttributes_nil member).2 rfl⟩
  have after : '\r' ∉ closingChars name ++ ['\n'] := by
    simp only [List.mem_append, List.mem_cons, not_or]
    exact ⟨fun member => (mem_closingChars plain member).2 rfl, by decide, by simp⟩
  have shape (content : String) : (indent depth).toList ++ textElementChars name content =
      ((indent depth).toList ++ '<' :: openingChars name []) ++
        (content.toList.flatMap escapedInContent ++ '<' :: (closingChars name ++ ['\n'])) := by
    simp [textElementChars]
  rw [toList_textElement, shape, shape, normalizeLines_append before, normalizeLines_escaped,
    (normalizeLines_eq_self_iff _).mpr after, String.toList_ofList]

theorem dropMark_textElement (name content : String) (depth : Int) :
    dropMark (textElement name content depth).toList = (textElement name content depth).toList := by
  apply dropMark_eq
  rw [toList_textElement]
  cases blanks : (indent depth).toList with
  | nil => simp [textElementChars]
  | cons c cs =>
    have isBlank : c = ' ' := mem_indent (blanks ▸ List.mem_cons_self)
    subst isBlank
    simp

/-- An element with text inside is a well-formed document, read with the line ends of the text. -/
theorem parse?_textElement {name : String} (plain : IsPlainName name) {content : String}
    (legible : ∀ c ∈ content.toList, isXmlChar c = true) (depth : Int) {settings : Settings}
    (roomy : ∀ limit, settings.depthLimit = some limit → 1 ≤ limit) :
    (Source.characters (textElement name content depth)).parse? settings =
      some (elementOf name (normalizeLines false content.toList)) := by
  obtain ⟨surroundings, limit⟩ := settings
  have shallow : (elementOf name (normalizeLines false content.toList)).depth = 1 := by
    unfold elementOf textNode
    split <;> simp [Node.depth, Node.depthOfAll]
  refine parse?_of_unlimited ?_ fun n isLimit => shallow.trans_le (roomy n isLimit)
  have declared : takeDocumentDeclaration?
      (normalizeLines false (textElement name content depth).toList) =
        some (none, (indent depth).toList ++
          textElementChars name (String.ofList (normalizeLines false content.toList))) := by
    rw [normalizeLines_textElement plain]
    obtain ⟨c, more, shape, start⟩ := exists_tag_eq plain [] _
    rw [textElementChars, shape]
    exact takeDocumentDeclaration?_indented depth start more
  have fits : (textElement name content depth).toList.all isXmlChar = true :=
    List.all_eq_true.mpr fun c => isXmlChar_of_mem_textElement plain legible
  have resolved (expand : Expansion) :
      resolveAll? ⟨surroundings, none⟩ Declarations.empty expand Prefixes.initial
        (textRaws (String.ofList (normalizeLines false content.toList))) =
          some (textNode (normalizeLines false content.toList).reverse) := by
    rw [resolveAll?_textRaws]
    unfold textNode
    simp
  rw [Source.parse?, Source.characters?, dropMark_textElement, Option.bind_some]
  exact parseDocument?_element rfl plain plainAttributes_nil
    (allUpToUndeclared_textRaws Declarations.empty _) resolved (content?_textElementChars plain _)
    fits (fun c => isXmlBlank_of_mem_indent) declared

/-! ### Reading back -/

theorem one_le_standard_limit (limit : Nat)
    (isLimit : IntakeOptions.standard.depthLimit = some limit) : 1 ≤ limit := by
  obtain rfl := Option.some.inj isLimit
  decide

/-- Escaped text spells the text and is no markup, and what a reader of documents makes of its line ends
is the escaped form of the text with its line ends normalized. That is the text read inside an element,
and so the text is read as it was exactly if it has no carriage return. -/
theorem reads_escapedContent_iff (s : String) (legible : ∀ c ∈ s.toList, isXmlChar c = true) :
    SpellsText s (escapeContent s).toList ∧
    (∀ rest, normalizeLines false ((escapeContent s).toList ++ '<' :: rest) =
      (escapeContent (String.ofList (normalizeLines false s.toList))).toList ++
        '<' :: normalizeLines false rest) ∧
    ∀ name, IsPlainName name → ∀ (depth : Int) (settings : Settings),
      (∀ limit, settings.depthLimit = some limit → 1 ≤ limit) →
        (Source.characters (textElement name s depth)).parse? settings =
          some (elementOf name (normalizeLines false s.toList)) ∧
        ((Source.characters (textElement name s depth)).parse? settings =
          some (elementOf name s.toList) ↔ '\r' ∉ s.toList) := by
  refine ⟨spellsText_escapeContent s, fun rest => ?_, ?_⟩
  · simp only [escapeContent, String.toList_ofList, normalizeLines_escaped]
  intro name plain depth settings roomy
  have read := parse?_textElement plain legible depth roomy
  refine ⟨read, ?_⟩
  rw [read, Option.some.injEq, elementOf_inj, normalizeLines_eq_self_iff]

/-- Markup characters are found again. -/
theorem reads_escapedContent_markup :
    (∀ c ∈ "a < b && c > d".toList, isXmlChar c = true) ∧ IsPlainName "note" ∧
    (∀ limit, IntakeOptions.standard.depthLimit = some limit → 1 ≤ limit) ∧
    SpellsText "a < b && c > d" "a &lt; b &amp;&amp; c &gt; d".toList ∧
    (Source.characters "    <note>a &lt; b &amp;&amp; c &gt; d</note>\n").parse?
      (Intake.settings .standard (FileStore.empty []) none) =
        some (.element (plainTag "note" []) [.text "a < b && c > d"]) := by
  have legible : ∀ c ∈ "a < b && c > d".toList, isXmlChar c = true :=
    List.all_eq_true.mp (by decide)
  have plain : IsPlainName "note" := by decide
  obtain ⟨spells, _, reads⟩ := reads_escapedContent_iff "a < b && c > d" legible
  have read := reads "note" plain 1 (Intake.settings .standard (FileStore.empty []) none)
    one_le_standard_limit
  exact ⟨legible, plain, one_le_standard_limit, spells, read.2.mpr (by decide)⟩

/-- A carriage return is not: it is read as a line feed. -/
theorem not_reads_escapedContent_return :
    (∀ c ∈ "a\rb".toList, isXmlChar c = true) ∧ IsPlainName "note" ∧
    (Source.characters (textElement "note" "a\rb" 0)).parse?
      (Intake.settings .standard (FileStore.empty []) none) =
        some (.element (plainTag "note" []) [.text "a\nb"]) ∧
    "a\nb" ≠ "a\rb" := by
  have legible : ∀ c ∈ "a\rb".toList, isXmlChar c = true :=
    List.all_eq_true.mp (by decide)
  have plain : IsPlainName "note" := by decide
  exact ⟨legible, plain, parse?_textElement plain legible 0 one_le_standard_limit, by decide⟩

end XmlRecords.Xml
