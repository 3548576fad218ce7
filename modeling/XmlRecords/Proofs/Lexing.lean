import XmlRecords.Proofs.Runs
import XmlRecords.Xml.Escape
import XmlRecords.Xml.LineEnd
import XmlRecords.Xml.Raw

/-!
What the lexer makes of names, escaped text and escaped attribute values: the name, and pieces that
spell the text.
-/

set_option autoImplicit false
set_option relaxedAutoImplicit false

namespace XmlRecords.Xml

open Text

/-! ### Names -/

theorem isNameChar_of_isNameStart {c : Char} (start : isNameStart c = true) :
    isNameChar c = true := by
  simp [isNameChar, start]

theorem ne_of_isNameChar {c d : Char} (inName : isNameChar c = true)
    (other : isNameChar d = false) : c ≠ d := by
  rintro rfl
  rw [inName] at other
  cases other

theorem isXmlBlank_of_isNameChar {c : Char} (inName : isNameChar c = true) :
    isXmlBlank c = false := by
  have space : c ≠ ' ' := ne_of_isNameChar inName (by decide)
  have tab : c ≠ '\t' := ne_of_isNameChar inName (by decide)
  have ret : c ≠ '\r' := ne_of_isNameChar inName (by decide)
  have feed : c ≠ '\n' := ne_of_isNameChar inName (by decide)
  simp [isXmlBlank, space, tab, ret, feed]

theorem eq_iff_toNat_eq (c d : Char) : c = d ↔ c.toNat = d.toNat := by
  constructor
  · rintro rfl
    rfl
  · exact fun same => Char.ext (UInt32.toNat_inj.mp same)

theorem isXmlChar_of_isNameChar {c : Char} (inName : isNameChar c = true) :
    isXmlChar c = true := by
  have code : c.val.toNat = c.toNat := rfl
  have letter : c.isAlpha = (decide ('A'.val ≤ c.val ∧ c.val ≤ 'Z'.val) ||
      decide ('a'.val ≤ c.val) && decide (c.val ≤ 'z'.val)) := rfl
  simp only [isNameChar, isNameStart, letter, Char.isDigit,
    ge_iff_le, UInt32.le_iff_toNat_le, Bool.or_eq_true, Bool.and_eq_true, decide_eq_true_eq,
    beq_iff_eq, eq_iff_toNat_eq, Char.reduceVal, UInt32.reduceToNat, Char.reduceToNat,
    code] at inName
  simp only [isXmlChar, Bool.or_eq_true, Bool.and_eq_true, decide_eq_true_eq]
  have low : 45 ≤ c.toNat := by omega
  have high : c.toNat ≤ 65533 ∨ 65536 ≤ c.toNat := by omega
  rcases high with basic | beyond
  · exact .inl (.inr ⟨by omega, basic⟩)
  · exact .inr beyond

theorem all_isNameChar_of_isName {cs : List Char} (name : isName cs = true) :
    ∀ c ∈ cs, isNameChar c = true := by
  cases cs with
  | nil => simp
  | cons c cs =>
    simp only [isName, Bool.and_eq_true, List.all_eq_true] at name
    intro d member
    rcases List.mem_cons.mp member with rfl | below
    · exact isNameChar_of_isNameStart name.1
    · exact name.2 d below

theorem takeName?_append {name : String} (isName' : isName name.toList = true) {c : Char}
    (ends : isNameChar c = false) (rest : List Char) :
    takeName? (name.toList ++ c :: rest) = some (name, c :: rest) := by
  have run : (name.toList ++ c :: rest).takeWhile isNameChar = name.toList := by
    rw [List.takeWhile_append_of_pos (all_isNameChar_of_isName isName'), List.takeWhile_cons]
    simp [ends]
  simp [takeName?, run, isName']

/-! ### Escaped text -/

/-- A character is spelled by itself or by a reference to it. -/
inductive Spells (c : Char) : List Char → Piece → Prop
  | literal : c ≠ '&' → Spells c [c] (.literal c)
  | reference (body : List Char) : ';' ∉ body → reference? body = some (.character c) →
      Spells c ('&' :: body ++ [';']) (.character c)

theorem pieces?_reading {body : List Char} (noEnd : ';' ∉ body) (read rest : List Char) :
    pieces? (some read) (body ++ rest) = pieces? (some (body.reverse ++ read)) rest := by
  induction body generalizing read with
  | nil => rfl
  | cons c body ih =>
    have other : c ≠ ';' := by
      rintro rfl
      exact noEnd List.mem_cons_self
    have below : ';' ∉ body := fun member => noEnd (List.mem_cons_of_mem c member)
    rw [List.cons_append, pieces?, if_neg other, ih below, List.reverse_cons, List.append_assoc]
    rfl

theorem Spells.pieces? {c : Char} {cs : List Char} {piece : Piece} (spells : Spells c cs piece)
    (rest : List Char) : pieces? none (cs ++ rest) = (pieces? none rest).map (piece :: ·) := by
  cases spells with
  | literal other => rw [List.singleton_append, Xml.pieces?, if_neg other]
  | reference body noEnd named =>
    have opening : Xml.pieces? none ('&' :: body ++ [';'] ++ rest) =
        Xml.pieces? (some []) (body ++ ';' :: rest) := by
      rw [List.append_assoc, List.cons_append, Xml.pieces?, if_pos rfl, List.singleton_append]
    rw [opening, pieces?_reading noEnd, Xml.pieces?, if_pos rfl, List.append_nil,
      List.reverse_reverse, named]

theorem pieces?_flatMap {escape : Char → List Char} {piece : Char → Piece}
    (spells : ∀ c, Spells c (escape c) (piece c)) (cs : List Char) :
    pieces? none (cs.flatMap escape) = some (cs.map piece) := by
  induction cs with
  | nil => rfl
  | cons c cs ih => rw [List.flatMap_cons, (spells c).pieces?, ih, List.map_cons, Option.map_some]

def contentPiece (c : Char) : Piece :=
  if c = '&' ∨ c = '<' ∨ c = '>' then .character c else .literal c

def attributePiece (c : Char) : Piece :=
  if c = '"' ∨ c = '\t' ∨ c = '\n' ∨ c = '\r' then .character c else contentPiece c

theorem contentPiece_cases (c : Char) :
    contentPiece c = .literal c ∨ contentPiece c = .character c := by
  unfold contentPiece
  split
  · exact .inr rfl
  · exact .inl rfl

theorem attributePiece_cases (c : Char) : attributePiece c = .character c ∨
    attributePiece c = .literal c ∧ c ≠ '\t' ∧ c ≠ '\n' ∧ c ≠ '\r' := by
  unfold attributePiece
  split
  · exact .inl rfl
  · rename_i other
    rw [not_or, not_or, not_or] at other
    rcases contentPiece_cases c with same | same
    · exact .inr ⟨same, other.2⟩
    · exact .inl same

theorem spells_content (c : Char) : Spells c (escapedInContent c) (contentPiece c) := by
  by_cases amp : c = '&'
  · subst amp
    exact .reference ['a', 'm', 'p'] (by decide) rfl
  by_cases less : c = '<'
  · subst less
    exact .reference ['l', 't'] (by decide) rfl
  by_cases more : c = '>'
  · subst more
    exact .reference ['g', 't'] (by decide) rfl
  have piece : contentPiece c = .literal c := by simp [contentPiece, amp, less, more]
  have escaped : escapedInContent c = [c] := by
    unfold escapedInContent
    split <;> simp_all
  rw [piece, escaped]
  exact .literal amp

theorem spells_attribute (c : Char) : Spells c (escapedInAttribute c) (attributePiece c) := by
  by_cases quote : c = '"'
  · subst quote
    exact .reference ['q', 'u', 'o', 't'] (by decide) rfl
  by_cases tab : c = '\t'
  · subst tab
    exact .reference ['#', '9'] (by decide) rfl
  by_cases feed : c = '\n'
  · subst feed
    exact .reference ['#', '1', '0'] (by decide) rfl
  by_cases ret : c = '\r'
  · subst ret
    exact .reference ['#', '1', '3'] (by decide) rfl
  have piece : attributePiece c = contentPiece c := by simp [attributePiece, quote, tab, feed, ret]
  have escaped : escapedInAttribute c = escapedInContent c := by
    unfold escapedInAttribute
    split <;> simp_all
  rw [piece, escaped]
  exact spells_content c

def referenceChars : List Char :=
  ['&', 'a', 'm', 'p', 'l', 't', 'g', ';', 'q', 'u', 'o', '#', '9', '1', '0', '3']

theorem mem_escapedInContent {c d : Char} (member : d ∈ escapedInContent c) :
    d = c ∧ c ≠ '<' ∧ c ≠ '>' ∨ d ∈ referenceChars := by
  unfold escapedInContent at member
  split at member
  · have inside : ['&', 'a', 'm', 'p', ';'] ⊆ referenceChars := by decide
    exact .inr (inside member)
  · have inside : ['&', 'l', 't', ';'] ⊆ referenceChars := by decide
    exact .inr (inside member)
  · have inside : ['&', 'g', 't', ';'] ⊆ referenceChars := by decide
    exact .inr (inside member)
  · rename_i notLess notMore
    exact .inl ⟨List.mem_singleton.mp member, notLess, notMore⟩

theorem escapedInContent_ne_nil (c : Char) : escapedInContent c ≠ [] := by
  unfold escapedInContent
  split <;> exact List.cons_ne_nil _ _

theorem mem_escapedInAttribute {c d : Char} (member : d ∈ escapedInAttribute c) :
    d = c ∧ c ∉ ['<', '"', '\t', '\n', '\r'] ∨ d ∈ referenceChars := by
  unfold escapedInAttribute at member
  split at member
  · have inside : ['&', 'q', 'u', 'o', 't', ';'] ⊆ referenceChars := by decide
    exact .inr (inside member)
  · have inside : ['&', '#', '9', ';'] ⊆ referenceChars := by decide
    exact .inr (inside member)
  · have inside : ['&', '#', '1', '0', ';'] ⊆ referenceChars := by decide
    exact .inr (inside member)
  · have inside : ['&', '#', '1', '3', ';'] ⊆ referenceChars := by decide
    exact .inr (inside member)
  · rename_i notQuote notTab notFeed notReturn
    rcases mem_escapedInContent member with ⟨same, notLess, _⟩ | reference
    · refine .inl ⟨same, ?_⟩
      simp only [List.mem_cons, List.not_mem_nil, or_false, not_or]
      exact ⟨notLess, notQuote, notTab, notFeed, notReturn⟩
    · exact .inr reference

theorem isXmlChar_of_mem_referenceChars {c : Char} (member : c ∈ referenceChars) :
    isXmlChar c = true := by
  have all : referenceChars.all isXmlChar = true := by decide
  exact List.all_eq_true.mp all c member

/-! ### Line ends -/

theorem normalizeLines_append {xs : List Char} (plain : '\r' ∉ xs) (rest : List Char) :
    normalizeLines false (xs ++ rest) = xs ++ normalizeLines false rest := by
  induction xs with
  | nil => rfl
  | cons c xs ih =>
    have other : c ≠ '\r' := by
      rintro rfl
      exact plain List.mem_cons_self
    have below : '\r' ∉ xs := fun member => plain (List.mem_cons_of_mem c member)
    rw [List.cons_append, normalizeLines, if_neg other, if_neg (by simp), ih below, List.cons_append]

theorem normalizeLines_append_of_ne {xs : List Char} (nonempty : xs ≠ [])
    (plain : ∀ c ∈ xs, c ≠ '\r' ∧ c ≠ '\n') (afterReturn : Bool) (rest : List Char) :
    normalizeLines afterReturn (xs ++ rest) = xs ++ normalizeLines false rest := by
  cases xs with
  | nil => exact absurd rfl nonempty
  | cons c xs =>
    obtain ⟨notReturn, notFeed⟩ := plain c List.mem_cons_self
    have below : '\r' ∉ xs := fun member => (plain _ (List.mem_cons_of_mem c member)).1 rfl
    rw [List.cons_append, normalizeLines, if_neg notReturn, if_neg (by simp [notFeed]),
      normalizeLines_append below, List.cons_append]

theorem all_normalizeLines {cs : List Char} (fit : ∀ c ∈ cs, isXmlChar c = true)
    (afterReturn : Bool) : ∀ c ∈ normalizeLines afterReturn cs, isXmlChar c = true := by
  induction cs generalizing afterReturn with
  | nil => simp [normalizeLines]
  | cons c cs ih =>
    have below := ih fun d member => fit d (List.mem_cons_of_mem c member)
    rw [normalizeLines]
    split
    · exact List.forall_mem_cons.mpr ⟨by decide, below true⟩
    · split
      · exact below false
      · exact List.forall_mem_cons.mpr ⟨fit c List.mem_cons_self, below false⟩

theorem return_not_mem_normalizeLines (afterReturn : Bool) (cs : List Char) :
    '\r' ∉ normalizeLines afterReturn cs := by
  induction cs generalizing afterReturn with
  | nil => simp [normalizeLines]
  | cons c cs ih =>
    rw [normalizeLines]
    split
    · exact List.not_mem_cons_of_ne_of_not_mem (by decide) (ih true)
    · rename_i other
      split
      · exact ih false
      · exact List.not_mem_cons_of_ne_of_not_mem (Ne.symm other) (ih false)

theorem normalizeLines_eq_self_iff (cs : List Char) :
    normalizeLines false cs = cs ↔ '\r' ∉ cs := by
  constructor
  · intro same
    rw [← same]
    exact return_not_mem_normalizeLines false cs
  · intro noReturn
    have same := normalizeLines_append noReturn []
    rwa [List.append_nil, normalizeLines, List.append_nil] at same

/-- Line ends in escaped content are read as those of the content itself. -/
theorem normalizeLines_escaped (afterReturn : Bool) (content rest : List Char) :
    normalizeLines afterReturn (content.flatMap escapedInContent ++ '<' :: rest) =
      (normalizeLines afterReturn content).flatMap escapedInContent ++
        '<' :: normalizeLines false rest := by
  induction content generalizing afterReturn with
  | nil => simp [normalizeLines]
  | cons c content ih =>
    rw [List.flatMap_cons, List.append_assoc, normalizeLines]
    by_cases ret : c = '\r'
    · subst ret
      rw [if_pos rfl, List.flatMap_cons, List.append_assoc, ← ih true]
      rfl
    rw [if_neg ret]
    by_cases feed : c = '\n'
    · subst feed
      cases afterReturn with
      | true =>
        rw [if_pos (by simp), ← ih false]
        rfl
      | false =>
        rw [if_neg (by simp), List.flatMap_cons, List.append_assoc, ← ih false]
        rfl
    · have plain : ∀ d ∈ escapedInContent c, d ≠ '\r' ∧ d ≠ '\n' := by
        intro d member
        rcases mem_escapedInContent member with ⟨rfl, _⟩ | reference
        · exact ⟨ret, feed⟩
        · constructor
          · rintro rfl
            exact absurd reference (by decide)
          · rintro rfl
            exact absurd reference (by decide)
      rw [if_neg (by simp [feed]), List.flatMap_cons, List.append_assoc, ← ih false]
      exact normalizeLines_append_of_ne (escapedInContent_ne_nil c) plain _ _

/-! ### The end of a run -/

theorem splitAround?_eq_none {mark cs : List Char} {d : Char} (inMark : d ∈ mark) (absent : d ∉ cs) :
    splitAround? mark cs = none := by
  induction cs with
  | nil =>
    have nonempty : mark.isEmpty = false := by
      cases mark with
      | nil => cases inMark
      | cons => rfl
    simp [splitAround?, nonempty]
  | cons c cs ih =>
    have apart : mark.isPrefixOf (c :: cs) = false := by
      rw [Bool.eq_false_iff]
      intro isPrefix
      exact absent ((List.isPrefixOf_iff_prefix.mp isPrefix).subset inMark)
    have below : d ∉ cs := fun member => absent (List.mem_cons_of_mem c member)
    simp [splitAround?, apart, ih below]

theorem takeWhile_ne_append {c : Char} {cs : List Char} (absent : c ∉ cs) (rest : List Char) :
    (cs ++ c :: rest).takeWhile (· != c) = cs := by
  have inside : ∀ d ∈ cs, (d != c) = true := by
    intro d member
    rw [bne_iff_ne]
    rintro rfl
    exact absent member
  rw [List.takeWhile_append_of_pos inside, List.takeWhile_cons]
  simp

theorem less_not_mem_escaped (content : List Char) : '<' ∉ content.flatMap escapedInContent := by
  intro member
  obtain ⟨c, _, inside⟩ := List.mem_flatMap.mp member
  rcases mem_escapedInContent inside with ⟨rfl, notLess, _⟩ | reference
  · exact notLess rfl
  · exact absurd reference (by decide)

theorem more_not_mem_escaped (content : List Char) : '>' ∉ content.flatMap escapedInContent := by
  intro member
  obtain ⟨c, _, inside⟩ := List.mem_flatMap.mp member
  rcases mem_escapedInContent inside with ⟨rfl, _, notMore⟩ | reference
  · exact notMore rfl
  · exact absurd reference (by decide)

theorem takeCharacters?_content (content rest : List Char) :
    takeCharacters? (content.flatMap escapedInContent ++ '<' :: rest) =
      some (.characters (content.map contentPiece), '<' :: rest) := by
  have noLess := less_not_mem_escaped content
  have noEnd : splitAround? [']', ']', '>'] (content.flatMap escapedInContent) = none :=
    splitAround?_eq_none (d := '>') (by simp) (more_not_mem_escaped content)
  simp only [takeCharacters?, takeWhile_ne_append noLess, noEnd, pieces?_flatMap spells_content,
    Option.map_some, List.drop_left]

/-! ### Attributes -/

def attributeChars (a : String × String) : List Char :=
  ' ' :: (a.1.toList ++ '=' :: '"' :: (a.2.toList.flatMap escapedInAttribute ++ ['"']))

theorem toList_attributeText (name value : String) :
    (attributeText name value).toList = attributeChars (name, value) := by
  simp [attributeText, escapeAttribute, attributeChars]

theorem takeValue?_append (value rest : List Char) :
    takeValue? ('"' :: (value.flatMap escapedInAttribute ++ '"' :: rest)) =
      some (value.map attributePiece, rest) := by
  have noQuote : '"' ∉ value.flatMap escapedInAttribute := by
    intro member
    obtain ⟨c, _, inside⟩ := List.mem_flatMap.mp member
    rcases mem_escapedInAttribute inside with ⟨rfl, other⟩ | reference
    · exact other (by simp)
    · exact absurd reference (by decide)
  have noLess : '<' ∉ value.flatMap escapedInAttribute := by
    intro member
    obtain ⟨c, _, inside⟩ := List.mem_flatMap.mp member
    rcases mem_escapedInAttribute inside with ⟨rfl, other⟩ | reference
    · exact other (by simp)
    · exact absurd reference (by decide)
  have quoted : takeQuoted? ('"' :: (value.flatMap escapedInAttribute ++ '"' :: rest)) =
      some (value.flatMap escapedInAttribute, rest) := by
    simp only [takeQuoted?, true_or, if_true, takeWhile_ne_append noQuote, List.drop_left]
  simp [takeValue?, quoted, noLess, pieces?_flatMap spells_attribute]

theorem skipBlanks_cons_of_isNameChar {c : Char} (inName : isNameChar c = true) (cs : List Char) :
    skipBlanks (c :: cs) = c :: cs := by
  simp [skipBlanks, isXmlBlank_of_isNameChar inName]

theorem exists_cons_of_isName {cs : List Char} (name : isName cs = true) :
    ∃ c rest, cs = c :: rest ∧ isNameStart c = true := by
  cases cs with
  | nil => cases name
  | cons c rest =>
    simp only [isName, Bool.and_eq_true] at name
    exact ⟨c, rest, rfl, name.1⟩

/-- The attributes of a start tag are read in order, with pieces that spell their values. -/
theorem takeAttributes?_append {attributes : List (String × String)}
    (names : ∀ a ∈ attributes, isName a.1.toList = true) (rest : List Char) {fuel : Nat}
    (enough : attributes.length < fuel) :
    takeAttributes? fuel (attributes.flatMap attributeChars ++ '>' :: rest) =
      some (attributes.map fun a => (a.1, a.2.toList.map attributePiece), false, rest) := by
  induction attributes generalizing fuel with
  | nil =>
    obtain ⟨fuel, rfl⟩ := Nat.exists_eq_succ_of_ne_zero (Nat.ne_of_gt enough)
    simp [takeAttributes?, skipBlanks, isXmlBlank]
  | cons a attributes ih =>
    obtain ⟨fuel, rfl⟩ := Nat.exists_eq_succ_of_ne_zero (Nat.ne_of_gt (Nat.zero_lt_of_lt enough))
    have name := names a List.mem_cons_self
    have below := ih (fun b member => names b (List.mem_cons_of_mem a member))
      (Nat.lt_of_succ_lt_succ enough)
    have shape : (a :: attributes).flatMap attributeChars ++ '>' :: rest =
        ' ' :: (a.1.toList ++ '=' :: '"' :: (a.2.toList.flatMap escapedInAttribute ++
          '"' :: (attributes.flatMap attributeChars ++ '>' :: rest))) := by
      simp [attributeChars]
    rw [shape]
    generalize attributes.flatMap attributeChars ++ '>' :: rest = more at below ⊢
    have named := takeName?_append name (c := '=') (by decide)
      ('"' :: (a.2.toList.flatMap escapedInAttribute ++ '"' :: more))
    have equals : takeEquals? ('=' :: '"' :: (a.2.toList.flatMap escapedInAttribute ++ '"' :: more)) =
        some ('"' :: (a.2.toList.flatMap escapedInAttribute ++ '"' :: more)) := by
      simp [takeEquals?, skipBlanks, isXmlBlank]
    obtain ⟨c, cs, isList, start⟩ := exists_cons_of_isName name
    have inName := isNameChar_of_isNameStart start
    have skipped (tail : List Char) : skipBlanks (' ' :: (a.1.toList ++ tail)) = c :: (cs ++ tail) := by
      have blank : skipBlanks (' ' :: (a.1.toList ++ tail)) = skipBlanks (a.1.toList ++ tail) := by
        simp [skipBlanks, isXmlBlank]
      rw [blank, isList, List.cons_append, skipBlanks_cons_of_isNameChar inName]
    have taken : skipBlanks? (' ' :: (a.1.toList ++ '=' :: '"' ::
        (a.2.toList.flatMap escapedInAttribute ++ '"' :: more))) =
        some (a.1.toList ++ '=' :: '"' :: (a.2.toList.flatMap escapedInAttribute ++ '"' :: more)) := by
      have here : isXmlBlank ' ' = true := by decide
      rw [skipBlanks?, if_pos here, isList, List.cons_append, skipBlanks_cons_of_isNameChar inName]
    rw [takeAttributes?, skipped, taken]
    split
    · rename_i closing
      obtain ⟨rfl, _⟩ := List.cons.inj closing
      exact absurd inName (by decide)
    · rename_i closing
      obtain ⟨rfl, _⟩ := List.cons.inj closing
      exact absurd inName (by decide)
    · simp [named, equals, takeValue?_append, below]

/-! ### Tags -/

def openingChars (name : String) (attributes : List (String × String)) : List Char :=
  name.toList ++ (attributes.flatMap attributeChars ++ ['>'])

def openingToken (name : String) (attributes : List (String × String)) : Token :=
  .opening name (attributes.map fun a => (a.1, a.2.toList.map attributePiece)) false

theorem takeMarkup?_opening {name : String} (isName' : isName name.toList = true)
    {attributes : List (String × String)} (names : ∀ a ∈ attributes, isName a.1.toList = true)
    (rest : List Char) {fuel : Nat} (enough : attributes.length < fuel) :
    takeMarkup? fuel (openingChars name attributes ++ rest) =
      some (openingToken name attributes, rest) := by
  have tail : ∃ d ds, attributes.flatMap attributeChars ++ '>' :: rest = d :: ds ∧
      isNameChar d = false := by
    cases attributes with
    | nil => exact ⟨'>', rest, rfl, by decide⟩
    | cons a attributes => exact ⟨' ', _, rfl, by decide⟩
  obtain ⟨d, ds, isTail, ends⟩ := tail
  have shape : openingChars name attributes ++ rest =
      name.toList ++ (attributes.flatMap attributeChars ++ '>' :: rest) := by
    simp [openingChars]
  have named : takeName? (name.toList ++ (attributes.flatMap attributeChars ++ '>' :: rest)) =
      some (name, attributes.flatMap attributeChars ++ '>' :: rest) := by
    rw [isTail]
    exact takeName?_append isName' ends ds
  obtain ⟨c, cs, isList, start⟩ := exists_cons_of_isName isName'
  have inName := isNameChar_of_isNameStart start
  -- the first character starts a name, so that no other kind of markup is meant
  have other {d : Char} (notStart : isNameChar d = false) (ds : List Char) :
      name.toList ++ (attributes.flatMap attributeChars ++ '>' :: rest) ≠ d :: ds := by
    rw [isList, List.cons_append]
    intro same
    exact ne_of_isNameChar inName notStart (List.cons.inj same).1
  rw [shape, takeMarkup?]
  · simp [named, takeAttributes?_append names rest enough, openingToken]
  · exact fun _ => other (by decide) _
  · exact fun _ => other (by decide) _
  · exact fun _ => other (by decide) _
  · exact fun _ => other (by decide) _

def closingChars (name : String) : List Char := '/' :: (name.toList ++ ['>'])

theorem takeMarkup?_closing {name : String} (isName' : isName name.toList = true)
    (rest : List Char) (fuel : Nat) :
    takeMarkup? fuel (closingChars name ++ rest) = some (.closing name, rest) := by
  have named := takeName?_append isName' (c := '>') (by decide) rest
  have shape : closingChars name ++ rest = '/' :: (name.toList ++ '>' :: rest) := by
    simp [closingChars]
  rw [shape, takeMarkup?, named]
  simp [skipBlanks, isXmlBlank]

end XmlRecords.Xml
