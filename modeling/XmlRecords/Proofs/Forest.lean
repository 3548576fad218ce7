import XmlRecords.Proofs.Lexing
import XmlRecords.Xml.Document

/-!
Rows of elements as canonical documents print them: every element on a line of its own, with a text
or, besides attributes, with a row of elements inside. A reader of documents finds the row again.
-/

set_option autoImplicit false
set_option relaxedAutoImplicit false

namespace XmlRecords.Xml

inductive Forest where
  | nil
  | text (name content : String) (rest : Forest)
  | element (name : String) (attributes : List (String × String)) (inside rest : Forest)

/-- The names that stand for themselves in documents: local names other than `xmlns`. -/
def IsPlainName (name : String) : Prop := isLocalName name.toList = true ∧ name ≠ "xmlns"

instance (name : String) : Decidable (IsPlainName name) :=
  inferInstanceAs (Decidable (isLocalName name.toList = true ∧ name ≠ "xmlns"))

/-- Attributes with distinct plain names and with values that documents may hold. -/
structure PlainAttributes (attributes : List (String × String)) : Prop where
  distinct : (attributes.map (·.1)).Nodup
  names : ∀ a ∈ attributes, IsPlainName a.1
  values : ∀ a ∈ attributes, ∀ c ∈ a.2.toList, isXmlChar c = true

def lineStart (depth : Int) : List Char := '\n' :: (indent depth).toList

theorem IsPlainName.isName {name : String} (plain : IsPlainName name) :
    isName name.toList = true := by
  have both := plain.1
  simp only [isLocalName, Bool.and_eq_true] at both
  exact both.1

theorem IsPlainName.no_colon {name : String} (plain : IsPlainName name) : ':' ∉ name.toList := by
  have both := plain.1
  simp only [isLocalName, Bool.and_eq_true, Bool.not_eq_true', List.contains_eq_mem,
    decide_eq_false_iff_not] at both
  exact both.2

theorem plainAttributes_nil : PlainAttributes [] := ⟨List.nodup_nil, by simp, by simp⟩

theorem mem_lineStart {depth : Int} {c : Char} (member : c ∈ lineStart depth) :
    c = '\n' ∨ c = ' ' := by
  rcases List.mem_cons.mp member with rfl | blank
  · exact .inl rfl
  · simp only [indent, String.toList_ofList] at blank
    exact .inr (List.eq_of_mem_replicate blank)

namespace Forest

/-- Holds of rows with plain names and attributes, and with texts that documents may hold. -/
def Plain : Forest → Prop
  | .nil => True
  | .text name content rest =>
    IsPlainName name ∧ (∀ c ∈ content.toList, isXmlChar c = true) ∧ rest.Plain
  | .element name attributes inside rest =>
    IsPlainName name ∧ PlainAttributes attributes ∧ inside.Plain ∧ rest.Plain

/-- The characters of a row at a depth, from the end of the tag before it to the start of the tag
after it, which is at a depth of its own. -/
def chars (depth outer : Int) : Forest → List Char
  | .nil => lineStart outer
  | .text name content rest =>
    lineStart depth ++ '<' :: (openingChars name [] ++ (content.toList.flatMap escapedInContent ++
      '<' :: (closingChars name ++ rest.chars depth outer)))
  | .element name attributes inside rest =>
    lineStart depth ++ '<' :: (openingChars name attributes ++ (inside.chars (depth + 1) depth ++
      '<' :: (closingChars name ++ rest.chars depth outer)))

/-- The same row with the line ends of its texts as a reader of documents sees them. -/
def normalized : Forest → Forest
  | .nil => .nil
  | .text name content rest =>
    .text name (String.ofList (normalizeLines false content.toList)) rest.normalized
  | .element name attributes inside rest =>
    .element name attributes inside.normalized rest.normalized

def nodes (depth outer : Int) : Forest → List Node
  | .nil => [.text (String.ofList (lineStart outer))]
  | .text name content rest =>
    .text (String.ofList (lineStart depth)) ::
      .element ⟨"", name, []⟩ (if content = "" then [] else [.text content]) ::
      rest.nodes depth outer
  | .element name attributes inside rest =>
    .text (String.ofList (lineStart depth)) ::
      .element ⟨"", name, attributes.map fun a => ⟨"", a.1, a.2⟩⟩
        (inside.nodes (depth + 1) depth) ::
      rest.nodes depth outer

end Forest

/-! ### Line ends and characters -/

theorem mem_openingChars {name : String} (plain : IsPlainName name)
    {attributes : List (String × String)} (fit : PlainAttributes attributes) {c : Char}
    (member : c ∈ openingChars name attributes) : isXmlChar c = true ∧ c ≠ '\r' := by
  have inName {name : String} (plain : IsPlainName name) {c : Char} (member : c ∈ name.toList) :
      isXmlChar c = true ∧ c ≠ '\r' := by
    have nameChar := all_isNameChar_of_isName plain.isName c member
    exact ⟨isXmlChar_of_isNameChar nameChar, ne_of_isNameChar nameChar (by decide)⟩
  have closed {cs : List Char} (fine : (cs.all fun c => isXmlChar c && c != '\r') = true) {c : Char}
      (member : c ∈ cs) : isXmlChar c = true ∧ c ≠ '\r' := by
    simpa using List.all_eq_true.mp fine c member
  rcases List.mem_append.mp member with here | member
  · exact inName plain here
  rcases List.mem_append.mp member with here | here
  · obtain ⟨a, inAttributes, here⟩ := List.mem_flatMap.mp here
    rcases List.mem_cons.mp here with rfl | here
    · exact ⟨by decide, by decide⟩
    rcases List.mem_append.mp here with here | here
    · exact inName (fit.names a inAttributes) here
    rcases List.mem_cons.mp here with rfl | here
    · exact ⟨by decide, by decide⟩
    rcases List.mem_cons.mp here with rfl | here
    · exact ⟨by decide, by decide⟩
    rcases List.mem_append.mp here with here | here
    · obtain ⟨d, inValue, escaped⟩ := List.mem_flatMap.mp here
      rcases mem_escapedInAttribute escaped with ⟨rfl, other⟩ | reference
      · refine ⟨fit.values a inAttributes c inValue, ?_⟩
        rintro rfl
        exact other (by simp)
      · exact closed (by decide) reference
    · exact closed (by decide) here
  · exact closed (by decide) here

theorem mem_closingChars {name : String} (plain : IsPlainName name) {c : Char}
    (member : c ∈ closingChars name) : isXmlChar c = true ∧ c ≠ '\r' := by
  rcases List.mem_cons.mp member with rfl | member
  · exact ⟨by decide, by decide⟩
  · have inOpening : c ∈ openingChars name [] := by
      simpa [openingChars] using member
    exact mem_openingChars plain plainAttributes_nil inOpening

namespace Forest

theorem isXmlChar_of_mem_chars {m : Forest} (plain : m.Plain) {depth outer : Int} {c : Char}
    (member : c ∈ m.chars depth outer) : isXmlChar c = true := by
  have inLine {depth : Int} (member : c ∈ lineStart depth) : isXmlChar c = true := by
    rcases mem_lineStart member with rfl | rfl <;> decide
  induction m generalizing depth outer with
  | nil => exact inLine member
  | text name content rest ih =>
    obtain ⟨nameFit, contentFit, restFit⟩ := plain
    simp only [chars, List.mem_append, List.mem_cons] at member
    rcases member with here | rfl | here | here | rfl | here | here
    · exact inLine here
    · decide
    · exact (mem_openingChars nameFit plainAttributes_nil here).1
    · obtain ⟨d, inContent, escaped⟩ := List.mem_flatMap.mp here
      rcases mem_escapedInContent escaped with ⟨rfl, _⟩ | reference
      · exact contentFit c inContent
      · exact isXmlChar_of_mem_referenceChars reference
    · decide
    · exact (mem_closingChars nameFit here).1
    · exact ih restFit here
  | element name attributes inside rest ihInside ihRest =>
    obtain ⟨nameFit, attributesFit, insideFit, restFit⟩ := plain
    simp only [chars, List.mem_append, List.mem_cons] at member
    rcases member with here | rfl | here | here | rfl | here | here
    · exact inLine here
    · decide
    · exact (mem_openingChars nameFit attributesFit here).1
    · exact ihInside insideFit here
    · decide
    · exact (mem_closingChars nameFit here).1
    · exact ihRest restFit here

theorem normalized_plain {m : Forest} (plain : m.Plain) : m.normalized.Plain := by
  induction m with
  | nil => trivial
  | text name content rest ih =>
    obtain ⟨nameFit, contentFit, restFit⟩ := plain
    refine ⟨nameFit, ?_, ih restFit⟩
    rw [String.toList_ofList]
    exact all_normalizeLines contentFit false
  | element name attributes inside rest ihInside ihRest =>
    obtain ⟨nameFit, attributesFit, insideFit, restFit⟩ := plain
    exact ⟨nameFit, attributesFit, ihInside insideFit, ihRest restFit⟩

/-- A reader of documents sees a row as the same row with normalized texts. -/
theorem normalizeLines_chars {m : Forest} (plain : m.Plain) (depth outer : Int) (rest : List Char) :
    normalizeLines false (m.chars depth outer ++ rest) =
      m.normalized.chars depth outer ++ normalizeLines false rest := by
  have inLine (depth : Int) : '\r' ∉ lineStart depth := by
    intro member
    rcases mem_lineStart member with same | same <;> exact absurd same (by decide)
  induction m generalizing depth outer rest with
  | nil => exact normalizeLines_append (inLine outer) rest
  | text name content row ih =>
    obtain ⟨nameFit, contentFit, rowFit⟩ := plain
    have before : '\r' ∉ lineStart depth ++ '<' :: openingChars name [] := by
      simp only [List.mem_append, List.mem_cons, not_or]
      exact ⟨inLine depth, by decide,
        fun member => (mem_openingChars nameFit plainAttributes_nil member).2 rfl⟩
    have after : '\r' ∉ closingChars name := fun member => (mem_closingChars nameFit member).2 rfl
    have shape (content : String) (row : Forest) (rest : List Char) :
        (text name content row).chars depth outer ++ rest =
          (lineStart depth ++ '<' :: openingChars name []) ++
            (content.toList.flatMap escapedInContent ++
              '<' :: (closingChars name ++ (row.chars depth outer ++ rest))) := by
      simp [chars]
    rw [normalized, shape, shape, normalizeLines_append before, normalizeLines_escaped,
      normalizeLines_append after, ih rowFit, String.toList_ofList]
  | element name attributes inside row ihInside ihRow =>
    obtain ⟨nameFit, attributesFit, insideFit, rowFit⟩ := plain
    have before : '\r' ∉ lineStart depth ++ '<' :: openingChars name attributes := by
      simp only [List.mem_append, List.mem_cons, not_or]
      exact ⟨inLine depth, by decide,
        fun member => (mem_openingChars nameFit attributesFit member).2 rfl⟩
    have after : '\r' ∉ '<' :: closingChars name := by
      simp only [List.mem_cons, not_or]
      exact ⟨by decide, fun member => (mem_closingChars nameFit member).2 rfl⟩
    have shape (inside row : Forest) (rest : List Char) :
        (element name attributes inside row).chars depth outer ++ rest =
          (lineStart depth ++ '<' :: openingChars name attributes) ++
            (inside.chars (depth + 1) depth ++
              (('<' :: closingChars name) ++ (row.chars depth outer ++ rest))) := by
      simp [chars]
    rw [normalized, shape, shape, normalizeLines_append before, ihInside insideFit,
      normalizeLines_append after, ihRow rowFit]

end Forest

/-! ### Tokens -/

/-- The lexer takes tokens off the start of content, whatever came before them. -/
def Lexes (tokens : List Token) (cs rest : List Char) : Prop :=
  ∀ (read : List Token) (fuel : Nat), cs.length ≤ fuel →
    ∃ left, rest.length ≤ left ∧
      tokensFrom? fuel read cs = tokensFrom? left (tokens.reverse ++ read) rest

theorem Lexes.trans {first second : List Token} {cs between rest : List Char}
    (one : Lexes first cs between) (two : Lexes second between rest) :
    Lexes (first ++ second) cs rest := by
  intro read fuel enough
  obtain ⟨left, enoughLeft, same⟩ := one read fuel enough
  obtain ⟨last, enoughLast, same'⟩ := two (first.reverse ++ read) left enoughLeft
  refine ⟨last, enoughLast, ?_⟩
  rw [same, same', List.reverse_append, List.append_assoc]

theorem Lexes.tokens? {tokens : List Token} {cs : List Char} (all : Lexes tokens cs []) :
    tokens? cs = some tokens := by
  obtain ⟨left, _, same⟩ := all [] cs.length (Nat.le_refl _)
  rw [Xml.tokens?, same, tokensFrom?.eq_def]
  simp

theorem lexes_markup {token : Token} {cs rest : List Char}
    (taken : ∀ fuel, cs.length < fuel → takeMarkup? fuel cs = some (token, rest))
    (shorter : rest.length ≤ cs.length) : Lexes [token] ('<' :: cs) rest := by
  intro read fuel enough
  rw [List.length_cons] at enough
  obtain ⟨left, rfl⟩ := Nat.exists_eq_succ_of_ne_zero (Nat.ne_of_gt (Nat.zero_lt_of_lt enough))
  refine ⟨left, by omega, ?_⟩
  rw [tokensFrom?, if_pos rfl, taken _ (by omega)]
  rfl

theorem lexes_characters {token : Token} {c : Char} {cs rest : List Char} (other : c ≠ '<')
    (taken : takeCharacters? (c :: cs) = some (token, rest)) (shorter : rest.length ≤ cs.length) :
    Lexes [token] (c :: cs) rest := by
  intro read fuel enough
  rw [List.length_cons] at enough
  obtain ⟨left, rfl⟩ := Nat.exists_eq_succ_of_ne_zero (Nat.ne_of_gt (Nat.zero_lt_of_lt enough))
  refine ⟨left, by omega, ?_⟩
  rw [tokensFrom?, if_neg other, taken]
  rfl

theorem length_le_flatMap (attributes : List (String × String)) :
    attributes.length ≤ (attributes.flatMap attributeChars).length := by
  induction attributes with
  | nil => exact Nat.le_refl 0
  | cons a attributes ih =>
    rw [List.flatMap_cons, List.length_append, List.length_cons, attributeChars, List.length_cons]
    omega

theorem lexes_opening {name : String} (plain : IsPlainName name)
    {attributes : List (String × String)} (fit : PlainAttributes attributes) (rest : List Char) :
    Lexes [openingToken name attributes] ('<' :: (openingChars name attributes ++ rest)) rest := by
  apply lexes_markup
  · intro fuel enough
    apply takeMarkup?_opening plain.isName fun a member => (fit.names a member).isName
    have count := length_le_flatMap attributes
    simp only [openingChars, List.length_append] at enough
    omega
  · rw [List.length_append]
    omega

theorem lexes_closing {name : String} (plain : IsPlainName name) (rest : List Char) :
    Lexes [.closing name] ('<' :: (closingChars name ++ rest)) rest := by
  apply lexes_markup
  · exact fun fuel _ => takeMarkup?_closing plain.isName rest fuel
  · rw [List.length_append]
    omega

def blankToken (depth : Int) : Token := .characters ((lineStart depth).map .literal)

theorem lexes_lineStart (depth : Int) (rest : List Char) :
    Lexes [blankToken depth] (lineStart depth ++ '<' :: rest) ('<' :: rest) := by
  have itself {cs : List Char} (blank : ∀ c ∈ cs, c = '\n' ∨ c = ' ') :
      cs.flatMap escapedInContent = cs ∧ cs.map contentPiece = cs.map .literal := by
    induction cs with
    | nil => exact ⟨rfl, rfl⟩
    | cons c cs ih =>
      obtain ⟨escaped, pieces⟩ := ih fun d member => blank d (List.mem_cons_of_mem c member)
      rw [List.flatMap_cons, List.map_cons, List.map_cons, escaped, pieces]
      rcases blank c List.mem_cons_self with rfl | rfl <;> exact ⟨rfl, rfl⟩
  obtain ⟨escaped, pieces⟩ := itself fun c member => @mem_lineStart depth c member
  have taken := takeCharacters?_content (lineStart depth) rest
  rw [escaped, pieces] at taken
  apply lexes_characters (by decide) taken
  simp

def textTokens (content : String) : List Token :=
  if content = "" then [] else [.characters (content.toList.map contentPiece)]

theorem lexes_content (content : String) (rest : List Char) :
    Lexes (textTokens content) (content.toList.flatMap escapedInContent ++ '<' :: rest)
      ('<' :: rest) := by
  by_cases empty : content = ""
  · subst empty
    intro read fuel enough
    exact ⟨fuel, enough, rfl⟩
  · rw [textTokens, if_neg empty]
    have taken := takeCharacters?_content content.toList rest
    have noLess := less_not_mem_escaped content.toList
    have nonempty : content.toList.flatMap escapedInContent ≠ [] := by
      intro none
      rw [List.flatMap_eq_nil_iff] at none
      obtain ⟨c, cs, isList⟩ := List.exists_cons_of_ne_nil (l := content.toList) (by simpa using empty)
      exact escapedInContent_ne_nil c (none c (by simp [isList]))
    obtain ⟨c, cs, isList⟩ := List.exists_cons_of_ne_nil nonempty
    rw [isList] at taken noLess ⊢
    apply lexes_characters (fun same => noLess (by simp [same])) taken
    simp

namespace Forest

def tokens (depth outer : Int) : Forest → List Token
  | .nil => [blankToken outer]
  | .text name content rest =>
    blankToken depth :: openingToken name [] ::
      (textTokens content ++ .closing name :: rest.tokens depth outer)
  | .element name attributes inside rest =>
    blankToken depth :: openingToken name attributes ::
      (inside.tokens (depth + 1) depth ++ .closing name :: rest.tokens depth outer)

theorem lexes_chars {m : Forest} (plain : m.Plain) (depth outer : Int) (rest : List Char) :
    Lexes (m.tokens depth outer) (m.chars depth outer ++ '<' :: rest) ('<' :: rest) := by
  induction m generalizing depth outer rest with
  | nil => exact lexes_lineStart outer rest
  | text name content row ih =>
    obtain ⟨nameFit, _, rowFit⟩ := plain
    have shape : (text name content row).chars depth outer ++ '<' :: rest =
        lineStart depth ++ '<' :: (openingChars name [] ++
          (content.toList.flatMap escapedInContent ++
            '<' :: (closingChars name ++ (row.chars depth outer ++ '<' :: rest)))) := by
      simp [chars]
    rw [shape]
    exact (lexes_lineStart depth _).trans ((lexes_opening nameFit plainAttributes_nil _).trans
      ((lexes_content content _).trans ((lexes_closing nameFit _).trans (ih rowFit depth outer rest))))
  | element name attributes inside row ihInside ihRow =>
    obtain ⟨nameFit, attributesFit, insideFit, rowFit⟩ := plain
    have shape : (element name attributes inside row).chars depth outer ++ '<' :: rest =
        lineStart depth ++ '<' :: (openingChars name attributes ++
          (inside.chars (depth + 1) depth ++
            '<' :: (closingChars name ++ (row.chars depth outer ++ '<' :: rest)))) := by
      simp [chars]
    rw [shape]
    exact (lexes_lineStart depth _).trans ((lexes_opening nameFit attributesFit _).trans
      ((ihInside insideFit (depth + 1) depth _).trans
        ((lexes_closing nameFit _).trans (ihRow rowFit depth outer rest))))

end Forest

/-! ### Trees -/

def blankRaw (depth : Int) : Raw := .characters ((lineStart depth).map .literal)

def textRaws (content : String) : List Raw :=
  if content = "" then [] else [.characters (content.toList.map contentPiece)]

def rawAttributes (attributes : List (String × String)) : List (String × List Piece) :=
  attributes.map fun a => (a.1, a.2.toList.map attributePiece)

theorem assemble?_characters (frames : List Frame) (siblings : List Raw) (pieces : List Piece)
    (tokens : List Token) : assemble? frames siblings (.characters pieces :: tokens) =
      assemble? frames (.characters pieces :: siblings) tokens := by
  cases frames <;> rw [assemble?]

theorem assemble?_opening (frames : List Frame) (siblings : List Raw) (name : String)
    (attributes : List (String × String)) (tokens : List Token) :
    assemble? frames siblings (openingToken name attributes :: tokens) =
      assemble? (⟨name, rawAttributes attributes, siblings⟩ :: frames) [] tokens := by
  cases frames <;> rw [openingToken, assemble?] <;> rfl

theorem assemble?_closing (frames : List Frame) (siblings before : List Raw) (name : String)
    (attributes : List (String × List Piece)) (tokens : List Token) :
    assemble? (⟨name, attributes, before⟩ :: frames) siblings (.closing name :: tokens) =
      assemble? frames (.element name attributes siblings.reverse :: before) tokens := by
  rw [assemble?, if_pos rfl]

theorem assemble?_textTokens (frames : List Frame) (content : String) (tokens : List Token) :
    assemble? frames [] (textTokens content ++ tokens) =
      assemble? frames (textRaws content) tokens := by
  unfold textTokens textRaws
  split
  · rfl
  · exact assemble?_characters frames [] _ tokens

namespace Forest

def raws (depth outer : Int) : Forest → List Raw
  | .nil => [blankRaw outer]
  | .text name content rest =>
    blankRaw depth :: .element name [] (textRaws content) :: rest.raws depth outer
  | .element name attributes inside rest =>
    blankRaw depth :: .element name (rawAttributes attributes) (inside.raws (depth + 1) depth) ::
      rest.raws depth outer

theorem assemble?_tokens (m : Forest) (depth outer : Int) (frames : List Frame)
    (siblings : List Raw) (tokens : List Token) :
    assemble? frames siblings (m.tokens depth outer ++ tokens) =
      assemble? frames ((m.raws depth outer).reverse ++ siblings) tokens := by
  induction m generalizing depth outer frames siblings tokens with
  | nil => exact assemble?_characters frames siblings _ tokens
  | text name content row ih =>
    have oneText : (textRaws content).reverse = textRaws content := by
      unfold textRaws
      split <;> rfl
    have shape : (text name content row).tokens depth outer ++ tokens =
        blankToken depth :: openingToken name [] ::
          (textTokens content ++ .closing name :: (row.tokens depth outer ++ tokens)) := by
      simp [Forest.tokens]
    rw [shape, blankToken, assemble?_characters, assemble?_opening, assemble?_textTokens,
      assemble?_closing, ih, oneText]
    simp [raws, blankRaw, rawAttributes]
  | element name attributes inside row ihInside ihRow =>
    have shape : (element name attributes inside row).tokens depth outer ++ tokens =
        blankToken depth :: openingToken name attributes ::
          (inside.tokens (depth + 1) depth ++
            .closing name :: (row.tokens depth outer ++ tokens)) := by
      simp [Forest.tokens]
    rw [shape, blankToken, assemble?_characters, assemble?_opening, ihInside, assemble?_closing,
      ihRow]
    simp [raws, blankRaw]

end Forest

/-! ### Names and values -/

theorem declaredPrefix?_eq_none {name : String} (plain : IsPlainName name) :
    declaredPrefix? name = none := by
  unfold declaredPrefix?
  rw [if_neg plain.2, dropText?, if_neg]
  · rfl
  · intro isPrefix
    exact plain.no_colon ((List.isPrefixOf_iff_prefix.mp isPrefix).subset (by decide))

theorem splitName?_eq {name : String} (plain : IsPlainName name) :
    splitName? name = some ("", name) := by
  have inside : ∀ c ∈ name.toList, (c != ':') = true := by
    intro c member
    rw [bne_iff_ne]
    rintro rfl
    exact plain.no_colon member
  simp [splitName?, List.takeWhile_eq_self_iff.mpr inside, plain.1]

theorem declarePrefixes?_eq {attributes : List (String × String)}
    (names : ∀ a ∈ attributes, IsPlainName a.1) (prefixes : Prefixes) :
    declarePrefixes? prefixes attributes = some prefixes := by
  induction attributes with
  | nil => rfl
  | cons a attributes ih =>
    obtain ⟨name, value⟩ := a
    rw [declarePrefixes?, declaredPrefix?_eq_none (names _ List.mem_cons_self)]
    exact ih fun b member => names b (List.mem_cons_of_mem _ member)

theorem mapM_map_eq_some {α β γ : Type} {f : β → Option γ} {g : α → β} {h : α → γ} {xs : List α}
    (all : ∀ x ∈ xs, f (g x) = some (h x)) : (xs.map g).mapM f = some (xs.map h) := by
  induction xs with
  | nil => rfl
  | cons x xs ih =>
    rw [List.map_cons, List.mapM_cons, all x List.mem_cons_self,
      ih fun y member => all y (List.mem_cons_of_mem x member)]
    rfl

theorem spaceForBlank_eq {c : Char} (other : c ≠ '\t' ∧ c ≠ '\n' ∧ c ≠ '\r') :
    spaceForBlank c = c := by
  obtain ⟨tab, feed, ret⟩ := other
  by_cases space : c = ' '
  · subst space
    decide
  · simp [spaceForBlank, Text.isXmlBlank, tab, feed, ret, space]

theorem expandValue?_eq (undeclared : Undeclared) (value : List Char) :
    expandValue? Declarations.empty undeclared Declarations.empty.depth
      (value.map attributePiece) = some value := by
  have depth : Declarations.empty.depth = Nat.succ 0 := rfl
  rw [depth]
  unfold expandValue?
  rw [mapM_map_eq_some (h := fun c => [c])]
  · rw [Option.map_some, ← List.flatMap_def, List.flatMap_singleton']
  · intro c _
    rcases attributePiece_cases c with same | ⟨same, other⟩
    · rw [same]
    · rw [same]
      simp only [spaceForBlank_eq other]

theorem attributeValues?_eq (s : Settings) (element : String)
    (attributes : List (String × String)) :
    attributeValues? s Declarations.empty element (rawAttributes attributes) = some attributes := by
  have none : Declarations.empty.attributes = [] := rfl
  rw [attributeValues?, rawAttributes, mapM_map_eq_some (h := id)]
  · simp [none]
  · intro a _
    have text : Declarations.empty.attribute? element a.1 = Option.none := rfl
    simp [expandValue?_eq, text, AttributeDecl.normalize]

/-- The start tag of a plain name with plain attributes, all without namespaces. -/
def plainTag (name : String) (attributes : List (String × String)) : StartTag :=
  ⟨"", name, attributes.map fun a => ⟨"", a.1, a.2⟩⟩

theorem distinctAttributes_plain {attributes : List (String × String)}
    (distinct : (attributes.map (·.1)).Nodup) :
    distinctAttributes (plainTag "" attributes).attributes = true := by
  unfold plainTag
  induction attributes with
  | nil => rfl
  | cons a attributes ih =>
    obtain ⟨fresh, distinct⟩ := List.nodup_cons.mp distinct
    rw [List.map_cons, distinctAttributes, ih distinct, Bool.and_true, Bool.not_eq_true',
      List.any_eq_false]
    intro b member
    obtain ⟨c, inside, rfl⟩ := List.mem_map.mp member
    have apart : c.1 ≠ a.1 := by
      intro same
      exact fresh (List.mem_map.mpr ⟨c, inside, same⟩)
    simp [apart]

theorem resolveTag?_eq {name : String} (plain : IsPlainName name)
    {attributes : List (String × String)} (fit : PlainAttributes attributes) :
    resolveTag? Prefixes.initial name attributes =
      some (plainTag name attributes, Prefixes.initial) := by
  have kept : attributes.filter (fun a => (declaredPrefix? a.1).isNone) = attributes := by
    rw [List.filter_eq_self]
    intro a member
    rw [declaredPrefix?_eq_none (fit.names a member)]
    rfl
  have resolved : attributes.mapM (resolveAttribute? Prefixes.initial) =
      some (attributes.map fun a => ⟨"", a.1, a.2⟩) := by
    have each : ∀ a ∈ attributes, resolveAttribute? Prefixes.initial (id a) =
        some (⟨"", a.1, a.2⟩ : Attribute) := by
      intro a member
      simp [resolveAttribute?, splitName?_eq (fit.names a member)]
    have all := mapM_map_eq_some each
    rwa [List.map_id] at all
  have acceptable (a : String × String) : isAcceptable ⟨"", a.1, a.2⟩ = true := by
    have apart : ("" == xmlSpace) = false := by decide
    simp [isAcceptable, apart]
  have distinct := distinctAttributes_plain fit.distinct
  have noSpace : resolvePrefix? Prefixes.initial "" = some "" := by decide
  rw [plainTag] at distinct
  have passed : (attributes.map fun a => (⟨"", a.1, a.2⟩ : Attribute)).all isAcceptable = true := by
    rw [List.all_map, List.all_eq_true]
    exact fun a _ => acceptable a
  simp only [resolveTag?, fit.distinct, declarePrefixes?_eq fit.names, splitName?_eq plain, noSpace,
    kept, resolved, passed, distinct, plainTag, not_true, if_false, Option.bind_eq_bind,
    Option.bind_some, Bool.and_self, if_true]

/-! ### Nodes -/

theorem resolvePieces?_eq (expand : Expansion) (prefixes : Prefixes) {spell : Char → Piece}
    (spells : ∀ c, spell c = .literal c ∨ spell c = .character c) (run cs : List Char) :
    resolvePieces? expand prefixes run (cs.map spell) = some (textNode (cs.reverse ++ run)) := by
  induction cs generalizing run with
  | nil => rfl
  | cons c cs ih =>
    have step : resolvePieces? expand prefixes run (spell c :: cs.map spell) =
        resolvePieces? expand prefixes (c :: run) (cs.map spell) := by
      rcases spells c with same | same <;> rw [same, resolvePieces?]
    rw [List.map_cons, step, ih, List.reverse_cons, List.append_assoc, List.singleton_append]

theorem resolveRaw?_blankRaw (s : Settings) (expand : Expansion) (depth : Int) :
    resolveRaw? s Declarations.empty expand Prefixes.initial (blankRaw depth) =
      some [.text (String.ofList (lineStart depth))] := by
  rw [blankRaw, resolveRaw?, resolvePieces?_eq _ _ fun c => .inl rfl]
  simp [textNode, lineStart]

theorem resolveAll?_textRaws (s : Settings) (expand : Expansion) (content : String) :
    resolveAll? s Declarations.empty expand Prefixes.initial (textRaws content) =
      some (if content = "" then [] else [.text content]) := by
  unfold textRaws
  split
  · rfl
  · rename_i nonempty
    simp [resolveAll?, resolveRaw?, resolvePieces?_eq _ _ contentPiece_cases, textNode, nonempty]

theorem resolveRaw?_element (s : Settings) (expand : Expansion) {name : String}
    (plain : IsPlainName name) {attributes : List (String × String)} (fit : PlainAttributes attributes)
    {children : List Raw} {nodes : List Node}
    (resolved : resolveAll? s Declarations.empty expand Prefixes.initial children = some nodes) :
    resolveRaw? s Declarations.empty expand Prefixes.initial
      (.element name (rawAttributes attributes) children) =
        some [.element (plainTag name attributes) nodes] := by
  rw [resolveRaw?, attributeValues?_eq]
  simp [resolveTag?_eq plain fit, resolved]

namespace Forest

theorem resolveAll?_raws {m : Forest} (plain : m.Plain) (s : Settings) (expand : Expansion)
    (depth outer : Int) :
    resolveAll? s Declarations.empty expand Prefixes.initial (m.raws depth outer) =
      some (m.nodes depth outer) := by
  induction m generalizing depth outer with
  | nil => simp [raws, nodes, resolveAll?, resolveRaw?_blankRaw]
  | text name content row ih =>
    obtain ⟨nameFit, _, rowFit⟩ := plain
    have element := resolveRaw?_element s expand nameFit plainAttributes_nil
      (resolveAll?_textRaws s expand content)
    have none : rawAttributes [] = [] := rfl
    rw [none] at element
    simp [raws, nodes, resolveAll?, resolveRaw?_blankRaw, element, ih rowFit, plainTag]
  | element name attributes inside row ihInside ihRow =>
    obtain ⟨nameFit, attributesFit, insideFit, rowFit⟩ := plain
    have element := resolveRaw?_element s expand nameFit attributesFit
      (ihInside insideFit (depth + 1) depth)
    simp [raws, nodes, resolveAll?, resolveRaw?_blankRaw, element, ihRow rowFit, plainTag]

end Forest

/-! ### Documents -/

/-- An element with attributes and a row of elements inside, on lines of its own at a depth. -/
def elementChars (depth : Int) (name : String) (attributes : List (String × String))
    (inside : Forest) : List Char :=
  '<' :: (openingChars name attributes ++ (inside.chars (depth + 1) depth ++
    '<' :: (closingChars name ++ ['\n'])))

theorem content?_elementChars {name : String} (plain : IsPlainName name)
    {attributes : List (String × String)} (fit : PlainAttributes attributes) {inside : Forest}
    (insideFit : inside.Plain) (depth : Int) :
    content? (elementChars depth name attributes inside) =
      some [.element name (rawAttributes attributes) (inside.raws (depth + 1) depth),
        .characters [.literal '\n']] := by
  have end_ : Lexes [.characters [.literal '\n']] ['\n'] [] :=
    lexes_characters (by decide) (by decide) (by simp)
  have lexed : Lexes (openingToken name attributes ::
      (inside.tokens (depth + 1) depth ++ [Token.closing name, .characters [.literal '\n']]))
      (elementChars depth name attributes inside) [] :=
    (lexes_opening plain fit _).trans ((inside.lexes_chars insideFit (depth + 1) depth _).trans
      ((lexes_closing plain ['\n']).trans end_))
  rw [content?, lexed.tokens?, Option.bind_some, assemble?_opening, Forest.assemble?_tokens,
    assemble?_closing, assemble?_characters]
  simp [assemble?]

theorem exists_tag_eq {name : String} (plain : IsPlainName name)
    (attributes : List (String × String)) (rest : List Char) :
    ∃ c more, '<' :: (openingChars name attributes ++ rest) = '<' :: c :: more ∧
      isNameStart c = true := by
  obtain ⟨c, cs, isList, start⟩ := exists_cons_of_isName plain.isName
  refine ⟨c, cs ++ (attributes.flatMap attributeChars ++ '>' :: rest), ?_, start⟩
  simp [openingChars, isList]

/-- The tag of an element is neither a comment nor an instruction nor a document type: the content
starts with it, with blanks in front of it or not. -/
theorem takeProlog?_tag (s : Surroundings) {c : Char} (start : isNameStart c = true)
    (more : List Char) {blanks : List Char} (blank : ∀ d ∈ blanks, Text.isXmlBlank d = true) :
    takeProlog? s (blanks ++ '<' :: c :: more) = some (Declarations.empty, '<' :: c :: more) := by
  have inName := isNameChar_of_isNameStart start
  have skipped : skipBlanks (blanks ++ '<' :: c :: more) = '<' :: c :: more := by
    rw [skipBlanks, List.dropWhile_append_of_pos blank]
    exact List.dropWhile_cons_of_neg (by decide)
  have noMisc (fuel : Nat) :
      skipMisc? (fuel + 1) (blanks ++ '<' :: c :: more) = some ('<' :: c :: more) := by
    rw [skipMisc?, skipped]
    split
    · rename_i comment
      obtain ⟨rfl, _⟩ := List.cons.inj (List.cons.inj comment).2
      exact absurd inName (by decide)
    · rename_i instruction
      obtain ⟨rfl, _⟩ := List.cons.inj (List.cons.inj instruction).2
      exact absurd inName (by decide)
    · rfl
  have noType : dropText? "<!DOCTYPE" ('<' :: c :: more) = none := by
    rw [dropText?, if_neg]
    intro isPrefix
    have starts := List.isPrefixOf_iff_prefix.mp isPrefix
    have second : '!' = c := (List.cons_prefix_cons.mp (List.cons_prefix_cons.mp starts).2).1
    subst second
    exact absurd inName (by decide)
  rw [takeProlog?]
  simp only [noMisc, noType, Option.bind_eq_bind, Option.bind_some]

theorem upToUndeclared_characters (d : Declarations) {spell : Char → Piece}
    (spells : ∀ c, spell c = .literal c ∨ spell c = .character c) (cs : List Char) :
    Raw.upToUndeclared d (.characters (cs.map spell)) = ([.characters (cs.map spell)], false) := by
  rw [Raw.upToUndeclared]
  have whole (p : Piece → Bool) (kept : ∀ c, p (.literal c) = true ∧ p (.character c) = true) :
      (cs.map spell).takeWhile p = cs.map spell := by
    rw [List.takeWhile_eq_self_iff]
    intro piece member
    obtain ⟨c, _, rfl⟩ := List.mem_map.mp member
    rcases spells c with same | same
    · rw [same, (kept c).1]
    · rw [same, (kept c).2]
  rw [whole]
  · simp
  · exact fun c => ⟨rfl, rfl⟩

theorem upToUndeclared_element (d : Declarations) (name : String)
    (attributes : List (String × String)) {children : List Raw}
    (whole : Raw.allUpToUndeclared d children = (children, false)) :
    Raw.upToUndeclared d (.element name (rawAttributes attributes) children) =
      ([.element name (rawAttributes attributes) children], false) := by
  rw [Raw.upToUndeclared]
  have none (p : Piece → Bool) (passed : ∀ c, p (.literal c) = false ∧ p (.character c) = false) :
      (rawAttributes attributes).any (fun a => a.2.any p) = false := by
    rw [List.any_eq_false]
    intro a member
    obtain ⟨b, _, rfl⟩ := List.mem_map.mp member
    rw [List.any_eq_true]
    rintro ⟨piece, inside, holds⟩
    obtain ⟨c, _, rfl⟩ := List.mem_map.mp inside
    rcases attributePiece_cases c with same | ⟨same, _⟩
    · rw [same, (passed c).2] at holds
      cases holds
    · rw [same, (passed c).1] at holds
      cases holds
  dsimp only
  rw [none, whole]
  · rfl
  · exact fun c => ⟨rfl, rfl⟩

theorem allUpToUndeclared_textRaws (d : Declarations) (content : String) :
    Raw.allUpToUndeclared d (textRaws content) = (textRaws content, false) := by
  unfold textRaws
  split
  · rfl
  · simp [Raw.allUpToUndeclared, upToUndeclared_characters d contentPiece_cases]

theorem Forest.allUpToUndeclared_raws (m : Forest) (d : Declarations) (depth outer : Int) :
    Raw.allUpToUndeclared d (m.raws depth outer) = (m.raws depth outer, false) := by
  have blank (depth : Int) : Raw.upToUndeclared d (blankRaw depth) = ([blankRaw depth], false) :=
    upToUndeclared_characters d (fun c => .inl rfl) (lineStart depth)
  induction m generalizing depth outer with
  | nil => simp [raws, Raw.allUpToUndeclared, blank]
  | text name content row ih =>
    have element := upToUndeclared_element d name [] (allUpToUndeclared_textRaws d content)
    have none : rawAttributes [] = [] := rfl
    rw [none] at element
    simp [raws, Raw.allUpToUndeclared, blank, element, ih]
  | element name attributes inside row ihInside ihRow =>
    have element := upToUndeclared_element d name attributes (ihInside (depth + 1) depth)
    simp [raws, Raw.allUpToUndeclared, blank, element, ihRow]

/-- A document is read as its root element if the trees inside it refer to no entity. -/
theorem parseDocument?_element {s : Settings} (deep : s.depthLimit = none) {name : String}
    (plain : IsPlainName name) {attributes : List (String × String)}
    (fit : PlainAttributes attributes) {children : List Raw} {nodes : List Node}
    (whole : Raw.allUpToUndeclared Declarations.empty children = (children, false))
    (resolved : ∀ expand, resolveAll? s Declarations.empty expand Prefixes.initial children = some nodes)
    {rest : List Char} (isContent : content? ('<' :: (openingChars name attributes ++ rest)) =
      some [.element name (rawAttributes attributes) children, .characters [.literal '\n']])
    {document : List Char} (fits : document.all isXmlChar = true) {declaration : Option Declaration}
    {blanks : List Char} (blank : ∀ c ∈ blanks, Text.isXmlBlank c = true)
    (declared : takeDocumentDeclaration? (normalizeLines false document) =
      some (declaration, blanks ++ '<' :: (openingChars name attributes ++ rest))) :
    parseDocument? s document = some (.element (plainTag name attributes) nodes) := by
  have prolog : takeProlog? s.toSurroundings
      (blanks ++ '<' :: (openingChars name attributes ++ rest)) =
        some (Declarations.empty, '<' :: (openingChars name attributes ++ rest)) := by
    obtain ⟨c, more, shape, start⟩ := exists_tag_eq plain attributes rest
    rw [shape]
    exact takeProlog?_tag _ start more blank
  have root : Raw.root? [.element name (rawAttributes attributes) children,
      .characters [.literal '\n']] = some (.element name (rawAttributes attributes) children) := by
    simp [Raw.root?, Raw.isMisc, Text.isXmlBlank]
  have allowed (length : Nat) (raw : Raw) : withinAllowance Declarations.empty length raw = true := rfl
  have kept := upToUndeclared_element Declarations.empty name attributes whole
  have element (expand : Expansion) := resolveRaw?_element s expand plain fit (resolved expand)
  simp only [parseDocument?, fits, declared, prolog, isContent, root, allowed, element, kept,
    resolveAll?, deep, Option.bind_eq_bind, Option.bind_some, Bool.not_true, Bool.false_eq_true,
    if_false, List.append_nil, ite_self]

theorem normalizeLines_elementChars {name : String} (plain : IsPlainName name)
    {attributes : List (String × String)} (fit : PlainAttributes attributes) {inside : Forest}
    (insideFit : inside.Plain) (depth : Int) {before : List Char} (noReturn : '\r' ∉ before) :
    normalizeLines false (before ++ elementChars depth name attributes inside) =
      before ++ elementChars depth name attributes inside.normalized := by
  have opening : '\r' ∉ before ++ '<' :: openingChars name attributes := by
    simp only [List.mem_append, List.mem_cons, not_or]
    exact ⟨noReturn, by decide, fun member => (mem_openingChars plain fit member).2 rfl⟩
  have closing : '\r' ∉ '<' :: (closingChars name ++ ['\n']) := by
    simp only [List.mem_append, List.mem_cons, not_or]
    exact ⟨by decide, fun member => (mem_closingChars plain member).2 rfl, by decide, by simp⟩
  have shape (inside : Forest) : before ++ elementChars depth name attributes inside =
      (before ++ '<' :: openingChars name attributes) ++ (inside.chars (depth + 1) depth ++
        (('<' :: (closingChars name ++ ['\n'])) ++ [])) := by
    simp [elementChars]
  rw [shape, shape, normalizeLines_append opening, inside.normalizeLines_chars insideFit,
    normalizeLines_append closing, normalizeLines]

theorem isXmlChar_of_mem_elementChars {name : String} (plain : IsPlainName name)
    {attributes : List (String × String)} (fit : PlainAttributes attributes) {inside : Forest}
    (insideFit : inside.Plain) {depth : Int} {c : Char}
    (member : c ∈ elementChars depth name attributes inside) : isXmlChar c = true := by
  simp only [elementChars, List.mem_append, List.mem_cons, List.not_mem_nil, or_false] at member
  rcases member with rfl | here | here | rfl | here | rfl
  · decide
  · exact (mem_openingChars plain fit here).1
  · exact inside.isXmlChar_of_mem_chars insideFit here
  · decide
  · exact (mem_closingChars plain here).1
  · decide

theorem dropMark_eq {cs : List Char} (unmarked : cs.head? ≠ some '\ufeff') : dropMark cs = cs := by
  rw [dropMark]
  rintro rest rfl
  exact unmarked rfl

/-- A document of one element after a declaration or blanks is read as that element. -/
theorem parse?_of_declared {s : Settings} (deep : s.depthLimit = none) {name : String}
    (plain : IsPlainName name) {attributes : List (String × String)}
    (fit : PlainAttributes attributes) {inside : Forest} (insideFit : inside.Plain) (depth : Int)
    {before : List Char} (fits : ∀ c ∈ before, isXmlChar c = true ∧ c ≠ '\r')
    (unmarked : before.head? ≠ some '\ufeff') {text : String}
    (spelt : text.toList = before ++ elementChars depth name attributes inside)
    {declaration : Option Declaration} {blanks : List Char}
    (blank : ∀ c ∈ blanks, Text.isXmlBlank c = true)
    (declared : takeDocumentDeclaration?
      (before ++ elementChars depth name attributes inside.normalized) =
        some (declaration, blanks ++ elementChars depth name attributes inside.normalized)) :
    (Source.characters text).parse? s =
      some (.element (plainTag name attributes) (inside.normalized.nodes (depth + 1) depth)) := by
  have marks : dropMark text.toList = text.toList := by
    rw [spelt]
    cases before with
    | nil => exact dropMark_eq (by simp [elementChars])
    | cons c before => exact dropMark_eq unmarked
  have all : text.toList.all isXmlChar = true := by
    rw [spelt, List.all_eq_true]
    intro c member
    rcases List.mem_append.mp member with here | here
    · exact (fits c here).1
    · exact isXmlChar_of_mem_elementChars plain fit insideFit here
  have noReturn : '\r' ∉ before := fun member => (fits _ member).2 rfl
  have normalFit := inside.normalized_plain insideFit
  rw [← normalizeLines_elementChars plain fit insideFit depth noReturn, ← spelt] at declared
  rw [Source.parse?, Source.characters?, marks, Option.bind_some]
  exact parseDocument?_element deep plain fit
    (inside.normalized.allUpToUndeclared_raws _ (depth + 1) depth)
    (fun expand => inside.normalized.resolveAll?_raws normalFit s expand (depth + 1) depth)
    (content?_elementChars plain fit normalFit depth) all blank declared

theorem mem_indent {depth : Int} {c : Char} (member : c ∈ (indent depth).toList) : c = ' ' := by
  rw [indent, String.toList_ofList] at member
  exact List.eq_of_mem_replicate member

theorem isXmlBlank_of_mem_indent {depth : Int} {c : Char} (member : c ∈ (indent depth).toList) :
    Text.isXmlBlank c = true := by
  rw [mem_indent member]
  decide

theorem takeDocumentDeclaration?_indented (depth : Int) {c : Char} (start : isNameStart c = true)
    (more : List Char) : takeDocumentDeclaration? ((indent depth).toList ++ '<' :: c :: more) =
      some (none, (indent depth).toList ++ '<' :: c :: more) := by
  have undeclared : dropText? "<?xml" ((indent depth).toList ++ '<' :: c :: more) = none := by
    rw [dropText?, if_neg]
    intro isPrefix
    have starts := List.isPrefixOf_iff_prefix.mp isPrefix
    cases blanks : (indent depth).toList with
    | nil =>
      rw [blanks, List.nil_append] at starts
      have second := (List.cons_prefix_cons.mp (List.cons_prefix_cons.mp starts).2).1
      subst second
      exact absurd (isNameChar_of_isNameStart start) (by decide)
    | cons d ds =>
      have isBlank : d = ' ' := mem_indent (blanks ▸ List.mem_cons_self)
      rw [blanks, List.cons_append] at starts
      exact absurd ((List.cons_prefix_cons.mp starts).1.trans isBlank) (by decide)
  simp [takeDocumentDeclaration?, takeDeclaration?, undeclared]

/-- An element is a well-formed document of its own, be it indented or not. -/
theorem parse?_indented {s : Settings} (deep : s.depthLimit = none) {name : String}
    (plain : IsPlainName name) {attributes : List (String × String)}
    (fit : PlainAttributes attributes) {inside : Forest} (insideFit : inside.Plain) (depth : Int)
    {text : String}
    (spelt : text.toList = (indent depth).toList ++ elementChars depth name attributes inside) :
    (Source.characters text).parse? s =
      some (.element (plainTag name attributes) (inside.normalized.nodes (depth + 1) depth)) := by
  have fits : ∀ c ∈ (indent depth).toList, isXmlChar c = true ∧ c ≠ '\r' := by
    intro c member
    rw [mem_indent member]
    exact ⟨by decide, by decide⟩
  have unmarked : (indent depth).toList.head? ≠ some '\ufeff' := by
    intro first
    exact absurd (mem_indent (List.mem_of_head? first)) (by decide)
  have declared : takeDocumentDeclaration? ((indent depth).toList ++
      elementChars depth name attributes inside.normalized) = some (none, (indent depth).toList ++
        elementChars depth name attributes inside.normalized) := by
    obtain ⟨c, more, shape, start⟩ := exists_tag_eq plain attributes
      (inside.normalized.chars (depth + 1) depth ++ '<' :: (closingChars name ++ ['\n']))
    rw [elementChars, shape]
    exact takeDocumentDeclaration?_indented depth start more
  exact parse?_of_declared deep plain fit insideFit depth fits unmarked spelt
    (fun c => isXmlBlank_of_mem_indent) declared

theorem parse?_declared {s : Settings} (deep : s.depthLimit = none) {name : String}
    (plain : IsPlainName name) {attributes : List (String × String)}
    (fit : PlainAttributes attributes) {inside : Forest} (insideFit : inside.Plain)
    {text : String}
    (spelt : text.toList = declaration.toList ++ elementChars 0 name attributes inside) :
    (Source.characters text).parse? s =
      some (.element (plainTag name attributes) (inside.normalized.nodes 1 0)) := by
  have each : declaration.toList.all (fun c => isXmlChar c && c != '\r') = true := by decide
  have fits : ∀ c ∈ declaration.toList, isXmlChar c = true ∧ c ≠ '\r' := fun c member => by
    simpa using List.all_eq_true.mp each c member
  have blank : ∀ c ∈ ['\n'], Text.isXmlBlank c = true := List.forall_mem_singleton.mpr (by decide)
  exact parse?_of_declared deep plain fit insideFit 0 fits (by decide) spelt blank rfl

end XmlRecords.Xml
