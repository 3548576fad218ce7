import XmlRecords.ModuleSource.Line
import XmlRecords.Proofs.Lexing
import XmlRecords.Proofs.LiteralReadBack
import XmlRecords.SourceText.Block

/-!
Lines of generated source as they are read. A fragment of a line gives the same tokens wherever it
stands, as long as no word at its end is continued by what follows; so the tokens of a line are those of
its pieces in order.
-/

set_option autoImplicit false
set_option relaxedAutoImplicit false

namespace XmlRecords.SourceText

open Text Xml

/-! ### Runs of the reader -/

def following (first : List Token) : Option (List Token × Reader) → Option (List Token × Reader) :=
  Option.map (Prod.map (first ++ ·) id)

theorem following_nil (result : Option (List Token × Reader)) : following [] result = result := by
  cases result <;> rfl

theorem following_append (first rest : List Token) (result : Option (List Token × Reader)) :
    following (first ++ rest) result = following first (following rest result) := by
  cases result with
  | none => rfl
  | some result => simp [following, Prod.map]

namespace Reader

theorem run?_cons {reader next : Reader} {c : Char} {tokens : List Token} (cs : List Char)
    (step : reader.step? c = some (tokens, next)) :
    reader.run? (c :: cs) = following tokens (next.run? cs) := by
  rw [run?, step]
  cases found : next.run? cs with
  | none => simp [found, following]
  | some result => simp [found, following, Prod.map]

theorem run?_append {reader next : Reader} {cs : List Char} {tokens : List Token}
    (run : reader.run? cs = some (tokens, next)) (rest : List Char) :
    reader.run? (cs ++ rest) = following tokens (next.run? rest) := by
  induction cs generalizing reader tokens with
  | nil =>
    obtain ⟨rfl, rfl⟩ := Prod.mk.inj (Option.some.inj run)
    exact (following_nil _).symm
  | cons c cs ih =>
    cases step : reader.step? c with
    | none => simp [run?, step] at run
    | some result =>
      obtain ⟨first, between⟩ := result
      rw [run?_cons cs step] at run
      obtain ⟨⟨others, last⟩, below, same⟩ := Option.map_eq_some_iff.mp run
      obtain ⟨rfl, rfl⟩ := Prod.mk.inj same
      rw [List.cons_append, run?_cons _ step, ih below, ← following_append]

theorem run?_of_step? {reader other : Reader} {token : Token} {c : Char} (cs : List Char)
    (step : reader.step? c = (other.step? c).map token.before) :
    reader.run? (c :: cs) = following [token] (other.run? (c :: cs)) := by
  rw [run?, run?, step]
  cases other.step? c with
  | none => rfl
  | some result =>
    cases found : result.2.run? cs with
    | none => simp [found, Token.before, following]
    | some last => simp [found, Token.before, following, Prod.map]

end Reader

/-- Texts are normalized one by one, unless a line end lies across them. -/
theorem normalizeLines_append_of_apart {cs rest : List Char}
    (apart : cs.getLast? = some '\r' → rest.head? ≠ some '\n') :
    normalizeLines false (cs ++ rest) = normalizeLines false cs ++ normalizeLines false rest := by
  -- A return takes a line feed with it, so all that counts is the last character.
  have each (afterReturn : Bool) (c : Char) (cs : List Char)
      (apart : (c :: cs).getLast? = some '\r' → rest.head? ≠ some '\n') :
      normalizeLines afterReturn (c :: cs ++ rest) =
        normalizeLines afterReturn (c :: cs) ++ normalizeLines false rest := by
    induction cs generalizing afterReturn c with
    | nil =>
      rw [List.cons_append, normalizeLines, normalizeLines]
      split
      · rename_i isReturn
        have other := apart (by rw [isReturn]; rfl)
        cases rest with
        | nil => rfl
        | cons d ds =>
          have other : d ≠ '\n' := fun same => other (by rw [same]; rfl)
          have same : normalizeLines true (d :: ds) = normalizeLines false (d :: ds) := by
            simp only [normalizeLines, other, false_and, if_false]
          rw [List.nil_append, same]
          rfl
      · split <;> rfl
    | cons d ds ih =>
      have apart' : (d :: ds).getLast? = some '\r' → rest.head? ≠ some '\n' := by
        rwa [List.getLast?_cons_cons] at apart
      rw [List.cons_append, normalizeLines, normalizeLines, ih true d apart', ih false d apart']
      split
      · rfl
      · split <;> rfl
  cases cs with
  | nil => rfl
  | cons c cs => exact each false c cs apart

/-! ### Fragments of lines -/

/-- What a fragment of a line reads as: its tokens, whether the last one could be taken further by what
follows, whether the fragment ends a token before it, and whether it may begin a line. -/
structure Fragment where
  tokens : List Token
  isOpen : Bool
  separates : Bool
  begins : Bool
  deriving DecidableEq

def isSeparator (c : Char) : Bool := !isWordPart c && c != '"'

def beginsLine (c : Char) : Bool := c != ' ' && c != '\n' && c != '\r'

/-- The token that a separator would end, and whether there is one. -/
def Reader.pending? : Reader → Option (List Token × Bool)
  | .gap => some ([], false)
  | .word cs => if isWord cs then some ([.word (String.ofList cs)], true) else none
  | .openedTwice isFormatted => some ([literalToken isFormatted []], true)
  | _ => none

/-- Reads a fragment. Refused is what ends inside a literal or with the line. -/
def fragmentOf? (cs : List Char) : Option Fragment := do
  if cs.getLast? = some '\r' then none
  else
    let (tokens, reader) ← Reader.gap.run? (normalizeLines false cs)
    let (last, isOpen) ← reader.pending?
    return ⟨tokens ++ last, isOpen, cs.head?.any isSeparator, cs.head?.any beginsLine⟩

def fragment? (text : String) : Option Fragment := fragmentOf? text.toList

theorem fragment?_of_chars {text : String} {cs : List Char} {f : Fragment}
    (isText : String.ofList cs = text) (read : fragmentOf? cs = some f) : fragment? text = some f := by
  rw [fragment?, ← isText, String.toList_ofList, read]

theorem fragment?_eq_some_iff {text : String} {f : Fragment} : fragment? text = some f ↔
    text.toList.getLast? ≠ some '\r' ∧ ∃ tokens reader last,
      Reader.gap.run? (normalizeLines false text.toList) = some (tokens, reader) ∧
      reader.pending? = some (last, f.isOpen) ∧ f.tokens = tokens ++ last ∧
      f.separates = text.toList.head?.any isSeparator ∧ f.begins = text.toList.head?.any beginsLine := by
  unfold fragment? fragmentOf?
  split
  · rename_i ended
    simp [ended]
  · rename_i ended
    simp only [Option.bind_eq_bind, Option.bind_eq_some_iff, Option.pure_def, Option.some.injEq,
      Prod.exists, ne_eq, ended, not_false_eq_true, true_and]
    constructor
    · rintro ⟨tokens, reader, run, last, isOpen, pending, rfl⟩
      exact ⟨tokens, reader, last, run, pending, rfl, rfl, rfl⟩
    · rintro ⟨tokens, reader, last, run, pending, isTokens, separates, begins⟩
      refine ⟨tokens, reader, run, last, f.isOpen, pending, ?_⟩
      rw [← isTokens, ← separates, ← begins]

theorem head?_normalizeLines {rest : List Char} (separated : rest.head?.any isSeparator = true) :
    (normalizeLines false rest).head?.any isSeparator = true := by
  cases rest with
  | nil => exact separated
  | cons c cs =>
    rw [normalizeLines]
    split
    · have feed : isSeparator '\n' = true := by decide
      exact feed
    · rw [if_neg (by simp)]
      exact separated

/-- What a separator ends is read before it, and from there on as after a gap. -/
theorem run?_pending {reader : Reader} {last : List Token} {isOpen : Bool}
    (pending : reader.pending? = some (last, isOpen)) {rest : List Char}
    (separated : isOpen = true → rest.head?.any isSeparator = true) :
    reader.run? rest = following last (Reader.gap.run? rest) := by
  have ends {token : Token} (isOpened : isOpen = true)
      (step : ∀ c, isWordPart c = false ∧ c ≠ '"' →
        reader.step? c = (Reader.gap.step? c).map token.before) :
      reader.run? rest = following [token] (Reader.gap.run? rest) := by
    have separated := separated isOpened
    cases rest with
    | nil => cases separated
    | cons c cs =>
      exact Reader.run?_of_step? cs (step c (by simpa [isSeparator] using separated))
  unfold Reader.pending? at pending
  split at pending
  · obtain ⟨rfl, rfl⟩ := Prod.mk.inj (Option.some.inj pending)
    exact (following_nil _).symm
  · rename_i cs
    split at pending
    · rename_i isWord
      obtain ⟨rfl, rfl⟩ := Prod.mk.inj (Option.some.inj pending)
      refine ends rfl fun c apart => ?_
      simp only [Reader.step?, apart.1, Bool.false_eq_true, if_false, if_neg apart.2, if_pos isWord]
    · cases pending
  · obtain ⟨rfl, rfl⟩ := Prod.mk.inj (Option.some.inj pending)
    refine ends rfl fun c apart => ?_
    simp only [Reader.step?, if_neg apart.2]
  · cases pending

theorem run?_fragment {text : String} {f : Fragment} (isFragment : fragment? text = some f)
    {rest : List Char} (separated : f.isOpen = true → rest.head?.any isSeparator = true) :
    Reader.gap.run? (normalizeLines false (text.toList ++ rest)) =
      following f.tokens (Reader.gap.run? (normalizeLines false rest)) := by
  obtain ⟨ended, tokens, reader, last, run, pending, isTokens, _⟩ := fragment?_eq_some_iff.mp isFragment
  rw [normalizeLines_append_of_apart fun last => absurd last ended, Reader.run?_append run,
    run?_pending pending fun isOpen => head?_normalizeLines (separated isOpen), ← following_append,
    isTokens]

/-! ### Words and literals -/

/-- Holds of the texts that are read as one word. -/
structure IsWordText (text : String) : Prop where
  start : isWord text.toList = true
  parts : ∀ c ∈ text.toList, isWordPart c = true

theorem not_isWordPart {c : Char} (member : c ∈ [' ', '\n', '\r', '"']) : isWordPart c = false := by
  simp only [List.mem_cons, List.not_mem_nil, or_false] at member
  rcases member with rfl | rfl | rfl | rfl <;> rfl

theorem run?_wordParts {cs : List Char} (parts : ∀ c ∈ cs, isWordPart c = true) (word : List Char) :
    (Reader.word word).run? cs = some ([], .word (word ++ cs)) := by
  induction cs generalizing word with
  | nil => rw [List.append_nil, Reader.run?]
  | cons c cs ih =>
    obtain ⟨here, below⟩ := List.forall_mem_cons.mp parts
    have step : (Reader.word word).step? c = some ([], .word (word ++ [c])) := by
      rw [Reader.step?, if_pos here]
    rw [Reader.run?_cons cs step, ih below, List.append_assoc, List.singleton_append, following_nil]

theorem fragment?_word {text : String} (isWord : IsWordText text) :
    fragment? text = some ⟨[.word text], true, false, true⟩ := by
  obtain ⟨start, parts⟩ := isWord
  have apart : ∀ c ∈ text.toList, ∀ d ∈ [' ', '\n', '\r', '"'], c ≠ d := by
    rintro c member d special rfl
    have part := parts c member
    rw [not_isWordPart special] at part
    cases part
  have noReturn : '\r' ∉ text.toList := fun member => apart _ member '\r' (by decide) rfl
  have plain : normalizeLines false text.toList = text.toList := by
    have same := normalizeLines_append noReturn []
    rwa [List.append_nil, normalizeLines, List.append_nil] at same
  have run : Reader.gap.run? text.toList = some ([], .word text.toList) := by
    cases shape : text.toList with
    | nil =>
      rw [shape] at start
      cases start
    | cons c cs =>
      rw [shape] at parts apart
      obtain ⟨here, below⟩ := List.forall_mem_cons.mp parts
      have own := apart c List.mem_cons_self
      have step : Reader.gap.step? c = some ([], .word [c]) := by
        rw [Reader.step?, Reader.gapStep?, if_neg (own ' ' (by decide)), if_neg (own '\n' (by decide)),
          if_neg (own '"' (by decide)), if_pos here]
      rw [Reader.run?_cons cs step, run?_wordParts below, following_nil, List.singleton_append]
  refine fragment?_eq_some_iff.mpr ⟨fun last => noReturn (List.mem_of_getLast? last), [],
    .word text.toList, [.word text], by rw [plain, run], ?_, rfl, ?_, ?_⟩
  · rw [Reader.pending?, if_pos start, String.ofList_toList]
  all_goals
    cases shape : text.toList with
    | nil =>
      rw [shape] at start
      cases start
    | cons c cs =>
      rw [shape] at parts apart
      have own := apart c List.mem_cons_self
      simp [isSeparator, beginsLine, parts c List.mem_cons_self, own]

theorem read?_return (state : LiteralState) : state.read? '\r' = none := by
  cases state <;> rfl

theorem run?_short {state : LiteralState} {cs : List Char} {points : List Nat}
    (inside : state ≠ .closed) (read : state.readAll? cs = some (points, [])) (isFormatted : Bool)
    (first : List Nat) : '\r' ∉ cs ∧ (Reader.short isFormatted state first).run? cs =
      some ([literalToken isFormatted (first ++ points)], .gap) := by
  induction cs generalizing state points first with
  | nil =>
    cases state with
    | closed => exact absurd rfl inside
    | _ => cases read
  | cons c cs ih =>
    obtain ⟨more, next, step, others, below, rfl⟩ : ∃ more next, state.read? c = some (more, next) ∧
        ∃ others, next.readAll? cs = some (others, []) ∧ points = more ++ others := by
      cases state with
      | closed => exact absurd rfl inside
      | _ =>
        simp only [LiteralState.readAll?, Option.bind_eq_bind, Option.bind_eq_some_iff, Option.pure_def,
          Option.some.injEq, Prod.exists, Prod.mk.injEq] at read
        obtain ⟨more, next, step, others, _, below, same, rfl⟩ := read
        exact ⟨more, next, step, others, below, same.symm⟩
    have noReturn : c ≠ '\r' := by
      rintro rfl
      rw [read?_return] at step
      cases step
    have ownStep : (Reader.short isFormatted state first).step? c = some (if next = .closed then
        ([literalToken isFormatted (first ++ more)], .gap)
        else ([], .short isFormatted next (first ++ more))) := by
      rw [Reader.step?, Reader.shortStep?, step, Option.map_some]
    -- The literal is read to its end, so the quote that closes it is the last character.
    by_cases closes : next = .closed
    · subst closes
      rw [LiteralState.readAll?] at below
      obtain ⟨rfl, rfl⟩ := Prod.mk.inj (Option.some.inj below)
      rw [if_pos rfl] at ownStep
      refine ⟨by simpa using noReturn.symm, ?_⟩
      rw [Reader.run?_cons _ ownStep, Reader.run?, List.append_nil]
      rfl
    · rw [if_neg closes] at ownStep
      obtain ⟨free, run⟩ := ih closes below (first ++ more)
      refine ⟨by simpa [noReturn.symm] using free, ?_⟩
      rw [Reader.run?_cons _ ownStep, following_nil, run, List.append_assoc]

theorem head?_literalChar (c : Char) : ∃ d ds, literalChar c = d :: ds ∧ d ≠ '"' := by
  unfold literalChar
  split
  · exact ⟨_, _, rfl, by decide⟩
  iterate 5
    split
    · exact ⟨_, _, rfl, by decide⟩
  split
  · rename_i quotes _ _ _ _ _ _
    exact ⟨c, [], rfl, fun same => quotes (.inl same)⟩
  · unfold utf16Units
    split <;> exact ⟨_, _, rfl, by decide⟩

theorem fragment?_literal (text : String) : fragment? (literal text) =
    some ⟨[.literal (writtenPoints text)], text.toList.isEmpty, false, true⟩ := by
  have opens : Reader.gap.step? '"' = some ([], .opened false) := by decide
  have read := LiteralState.readAll?_literalChars text.toList []
  rw [writtenPoints]
  have shape : (literal text).toList = '"' :: (text.toList.flatMap literalChar ++ ['"']) := by
    rw [literal, String.toList_ofList, List.cons_append]
  obtain ⟨free, short⟩ := run?_short (by simp) read false []
  have noReturn : '\r' ∉ (literal text).toList := by
    rw [shape]
    simpa using free
  have plain : normalizeLines false (literal text).toList = (literal text).toList := by
    have same := normalizeLines_append noReturn []
    rwa [List.append_nil, normalizeLines, List.append_nil] at same
  refine fragment?_eq_some_iff.mpr ⟨fun last => noReturn (List.mem_of_getLast? last), ?_⟩
  rw [plain, shape]
  have head : isSeparator '"' = false ∧ beginsLine '"' = true := by decide
  cases chars : text.toList with
  | nil =>
    refine ⟨[], .openedTwice false, [.literal []], ?_, rfl, rfl, head.1.symm, head.2.symm⟩
    have closes : (Reader.opened false).step? '"' = some ([], .openedTwice false) := by decide
    rw [List.flatMap_nil, List.nil_append, Reader.run?_cons _ opens, Reader.run?_cons _ closes]
    rfl
  | cons c cs =>
    obtain ⟨d, ds, isHead, noQuote⟩ := head?_literalChar c
    refine ⟨[.literal ((c :: cs).flatMap utf16Units)], .gap, [], ?_, rfl, rfl, head.1.symm, head.2.symm⟩
    -- the reader opens the literal with its first character
    have same (rest : List Char) : (Reader.opened false).run? (d :: rest) =
        (Reader.short false .plain []).run? (d :: rest) := by
      rw [Reader.run?, Reader.run?, Reader.step?, if_neg noQuote, Reader.step?]
    rw [chars] at short
    rw [Reader.run?_cons _ opens, following_nil, List.flatMap_cons, isHead, List.cons_append,
      List.cons_append, same, ← List.cons_append, ← List.cons_append, ← isHead, ← List.flatMap_cons, short,
      List.nil_append]
    rfl

/-! ### Documentation -/

def IsDocText (text : String) : Prop := ∀ c ∈ text.toList, c ≠ '"' ∧ c ≠ '\\' ∧ c ≠ '\x00'

instance (text : String) : Decidable (IsDocText text) :=
  List.decidableBAll (fun c : Char => c ≠ '"' ∧ c ≠ '\\' ∧ c ≠ '\x00') text.toList

theorem isDocText_of_chars {text : String} {cs : List Char} (isText : String.ofList cs = text)
    (plain : cs.all (fun c => c != '"' && c != '\\' && c != '\x00') = true) : IsDocText text := by
  rw [IsDocText, ← isText, String.toList_ofList]
  simpa [and_assoc] using plain

theorem run?_long {cs : List Char} (plain : ∀ c ∈ cs, c ≠ '"' ∧ c ≠ '\\' ∧ c ≠ '\x00' ∧ c ≠ '\r')
    (points : List Nat) : (Reader.long 0 .plain points).run? cs =
      some ([], .long 0 .plain (points ++ cs.map Char.toNat)) := by
  induction cs generalizing points with
  | nil => rw [List.map_nil, List.append_nil, Reader.run?]
  | cons c cs ih =>
    obtain ⟨⟨noQuote, noEscape, noNul, noReturn⟩, below⟩ := List.forall_mem_cons.mp plain
    have read : readLongPoint? .plain c = some ([c.toNat], .plain) := by
      unfold readLongPoint?
      split
      · rename_i feed
        rw [feed]
        rfl
      · rename_i feed
        rw [LiteralState.read?, LiteralState.readPlain?, if_neg noQuote, if_neg noEscape,
          if_neg (by simp [feed, noReturn, noNul])]
    have step : (Reader.long 0 .plain points).step? c =
        some ([], .long 0 .plain (points ++ [c.toNat])) := by
      rw [Reader.step?, Reader.longStep?, read]
      simp
    rw [Reader.run?_cons _ step, following_nil, ih below, List.append_assoc, List.singleton_append,
      List.map_cons]

theorem mem_normalizeLines {c : Char} {afterReturn : Bool} {cs : List Char}
    (member : c ∈ normalizeLines afterReturn cs) : c ≠ '\r' ∧ (c = '\n' ∨ c ∈ cs) := by
  induction cs generalizing afterReturn with
  | nil => cases member
  | cons d ds ih =>
    rw [normalizeLines] at member
    have below {b : Bool} (inside : c ∈ normalizeLines b ds) : c ≠ '\r' ∧ (c = '\n' ∨ c ∈ d :: ds) :=
      ⟨(ih inside).1, (ih inside).2.imp_right (List.mem_cons_of_mem d)⟩
    split at member
    · rcases List.mem_cons.mp member with rfl | inside
      · exact ⟨by decide, .inl rfl⟩
      · exact below inside
    · rename_i noReturn
      split at member
      · exact below member
      · rcases List.mem_cons.mp member with rfl | inside
        · exact ⟨noReturn, .inr List.mem_cons_self⟩
        · exact below inside

/-- Documentation that stands for itself is a fragment of one token, in which lines end in line feeds. -/
theorem fragment?_doc {text : String} (isDoc : IsDocText text) :
    fragment? ("\"\"\"" ++ text ++ "\"\"\"") =
      some ⟨[.literal ((normalizeLines false text.toList).map Char.toNat)], false, false, true⟩ := by
  have quotes : "\"\"\"".toList = ['"', '"', '"'] := rfl
  have shape : ("\"\"\"" ++ text ++ "\"\"\"").toList =
      ['"', '"', '"'] ++ (text.toList ++ ['"', '"', '"']) := by
    rw [String.toList_append, String.toList_append, quotes, List.append_assoc]
  have normalized : normalizeLines false ("\"\"\"" ++ text ++ "\"\"\"").toList =
      ['"', '"', '"'] ++ (normalizeLines false text.toList ++ ['"', '"', '"']) := by
    rw [shape, normalizeLines_append (by decide), normalizeLines_append_of_apart fun _ => by decide]
    rfl
  have inside : ∀ c ∈ normalizeLines false text.toList,
      c ≠ '"' ∧ c ≠ '\\' ∧ c ≠ '\x00' ∧ c ≠ '\r' := by
    intro c member
    obtain ⟨noReturn, rfl | own⟩ := mem_normalizeLines member
    · decide
    · obtain ⟨noQuote, noEscape, noNul⟩ := isDoc c own
      exact ⟨noQuote, noEscape, noNul, noReturn⟩
  have opens : Reader.gap.run? ['"', '"', '"'] = some ([], .long 0 .plain []) := by decide
  -- Of three quotes in a row two are only counted, and the third one ends the literal.
  have closes (points : List Nat) : (Reader.long 0 .plain points).run? ['"', '"', '"'] =
      some ([.literal points], .gap) := by
    have step (quotes : Nat) : (Reader.long quotes .plain points).step? '"' =
        some (if quotes = 2 then ([.literal points], .gap)
          else ([], .long (quotes + 1) .plain points)) := by
      have read : readLongPoint? .plain '"' = some ([], .closed) := by decide
      rw [Reader.step?, Reader.longStep?, read]
      simp
    rw [Reader.run?_cons _ (step 0), Reader.run?_cons _ (step 1), Reader.run?_cons _ (step 2)]
    rfl
  have ended : ("\"\"\"" ++ text ++ "\"\"\"").toList.getLast? ≠ some '\r' := by
    rw [shape, ← List.append_assoc, List.getLast?_append]
    simp
  refine fragment?_eq_some_iff.mpr ⟨ended, _, .gap, [], ?_, rfl, (List.append_nil _).symm, ?_, ?_⟩
  · rw [normalized, Reader.run?_append opens, following_nil, Reader.run?_append (run?_long inside []),
      following_nil, closes]
    rfl
  all_goals
    rw [shape]
    have head : isSeparator '"' = false ∧ beginsLine '"' = true := by decide
    simp [head]

end XmlRecords.SourceText

namespace XmlRecords.ModuleSource

open SourceText
open Xml (normalizeLines normalizeLines_append)

/-! ### Lines -/

def Piece.fragment? (p : Piece) : Option Fragment := SourceText.fragment? p.print

def startsApart : List Piece → Bool
  | [] => true
  | p :: _ => p.fragment?.any (·.separates)

/-- The tokens of a row of pieces, each of which ends where the next one begins. -/
def rowTokens? : List Piece → Option (List Token)
  | [] => some []
  | p :: rest => do
    let f ← p.fragment?
    let tokens ← rowTokens? rest
    if f.isOpen && !startsApart rest then none else some (f.tokens ++ tokens)

/-- The tokens of a line with the mark at its start; a blank line has none. -/
def Line.tokens? (l : Line) : Option (List Token) :=
  match l.pieces with
  | [] => some []
  | p :: rest =>
    if p.fragment?.any (·.begins) then
      (rowTokens? (p :: rest)).map (Token.line (4 * l.depth) :: ·)
    else none

def tokensOf (lines : List Line) : List Token := lines.flatMap fun l => l.tokens?.getD []

def Legible (lines : List Line) : Prop := ∀ l ∈ lines, l.tokens?.isSome

theorem printPieces_nil : printPieces [] = "" := rfl

theorem printPieces_cons (p : Piece) (pieces : List Piece) :
    printPieces (p :: pieces) = p.print ++ printPieces pieces := by
  rw [printPieces, List.map_cons, String.join_cons]
  rfl

theorem printPieces_append (first rest : List Piece) :
    printPieces (first ++ rest) = printPieces first ++ printPieces rest := by
  rw [printPieces, List.map_append, String.join_append]
  rfl

theorem printPieces_cons_toList (p : Piece) (rest : List Piece) :
    (printPieces (p :: rest)).toList = p.print.toList ++ (printPieces rest).toList := by
  rw [printPieces_cons, String.toList_append]

theorem head?_of_startsApart {pieces : List Piece} (apart : startsApart pieces = true)
    (rest : List Char) :
    ((printPieces pieces).toList ++ '\n' :: rest).head?.any isSeparator = true := by
  cases pieces with
  | nil =>
    have feed : isSeparator '\n' = true := by decide
    exact feed
  | cons p pieces =>
    obtain ⟨f, isFragment, separates⟩ := (Option.any_eq_true _ _).mp apart
    obtain ⟨_, _, _, _, _, _, _, same, _⟩ := fragment?_eq_some_iff.mp isFragment
    rw [same] at separates
    rw [printPieces_cons_toList]
    cases shape : p.print.toList with
    | nil => simp [shape] at separates
    | cons c cs => simpa [shape] using separates

theorem run?_row {pieces : List Piece} {tokens : List Token} (read : rowTokens? pieces = some tokens)
    (rest : List Char) :
    Reader.gap.run? (normalizeLines false ((printPieces pieces).toList ++ '\n' :: rest)) =
      following tokens (Reader.gap.run? (normalizeLines false ('\n' :: rest))) := by
  induction pieces generalizing tokens with
  | nil =>
    obtain rfl := Option.some.inj read
    exact (following_nil _).symm
  | cons p pieces ih =>
    simp only [rowTokens?, Option.bind_eq_bind, Option.bind_eq_some_iff] at read
    obtain ⟨f, isFragment, others, below, joined⟩ := read
    split at joined
    · cases joined
    rename_i apart
    obtain rfl := Option.some.inj joined
    rw [printPieces_cons_toList, List.append_assoc, run?_fragment isFragment, ih below,
      ← following_append]
    intro isOpen
    exact head?_of_startsApart (by simpa [isOpen] using apart) rest

theorem run?_margin {blanks : Nat} {cs : List Char} (begins : cs.head?.any beginsLine = true) :
    (Reader.margin blanks).run? cs = following [.line blanks] (Reader.gap.run? cs) := by
  cases cs with
  | nil => cases begins
  | cons c cs =>
    have own : c ≠ ' ' ∧ c ≠ '\n' ∧ c ≠ '\r' := by
      simpa [beginsLine, and_assoc] using begins
    refine Reader.run?_of_step? cs ?_
    simp only [Reader.step?, if_neg own.1, if_neg own.2.1]

theorem toList_blanks (depth : Nat) :
    (String.join (List.replicate depth "    ")).toList = List.replicate (4 * depth) ' ' := by
  induction depth with
  | zero => rfl
  | succ depth ih =>
    rw [List.replicate_succ, String.join_cons, String.toList_append, ih, Nat.mul_succ, Nat.add_comm,
      List.replicate_add]
    rfl

theorem run?_blanks (blanks n : Nat) (cs : List Char) :
    (Reader.margin n).run? (List.replicate blanks ' ' ++ cs) = (Reader.margin (n + blanks)).run? cs := by
  induction blanks generalizing n with
  | zero => rfl
  | succ blanks ih =>
    have step : (Reader.margin n).step? ' ' = some ([], .margin (n + 1)) := rfl
    rw [List.replicate_succ, List.cons_append, Reader.run?_cons _ step, following_nil, ih, Nat.add_assoc,
      Nat.add_comm 1]

theorem run?_line {l : Line} {tokens : List Token} (read : l.tokens? = some tokens) (rest : List Char) :
    (Reader.margin 0).run? (normalizeLines false (l.print.toList ++ '\n' :: rest)) =
      following tokens ((Reader.margin 0).run? (normalizeLines false rest)) := by
  have feed : normalizeLines false ('\n' :: rest) = '\n' :: normalizeLines false rest := by
    simp [normalizeLines]
  have ends : Reader.gap.step? '\n' = some ([], .margin 0) := rfl
  have ends' : (Reader.margin 0).step? '\n' = some ([], .margin 0) := rfl
  unfold Line.tokens? at read
  unfold Line.print
  split at read
  · rename_i none
    obtain rfl := Option.some.inj read
    rw [none, List.isEmpty_nil, if_pos rfl]
    show (Reader.margin 0).run? (normalizeLines false ('\n' :: rest)) = _
    rw [feed, Reader.run?_cons _ ends']
  · rename_i p pieces isPieces
    split at read
    · rename_i begins
      obtain ⟨row, isRow, rfl⟩ := Option.map_eq_some_iff.mp read
      obtain ⟨f, isFragment, begins⟩ := (Option.any_eq_true _ _).mp begins
      obtain ⟨_, _, _, _, _, _, _, _, same⟩ := fragment?_eq_some_iff.mp isFragment
      rw [same] at begins
      have blanks : '\r' ∉ List.replicate (4 * l.depth) ' ' := by simp
      have head : (normalizeLines false ((printPieces (p :: pieces)).toList ++ '\n' :: rest)).head?.any
          beginsLine = true := by
        rw [printPieces_cons_toList]
        cases shape : p.print.toList with
        | nil => simp [shape] at begins
        | cons c cs =>
          have own : beginsLine c = true := by simpa [shape] using begins
          have noReturn : c ≠ '\r' := by
            rintro rfl
            cases own
          rw [List.cons_append, List.cons_append, normalizeLines, if_neg noReturn, if_neg (by simp)]
          exact own
      rw [isPieces, List.isEmpty_cons, if_neg Bool.false_ne_true, String.toList_append, toList_blanks,
        List.append_assoc, normalizeLines_append blanks, run?_blanks, Nat.zero_add, run?_margin head,
        run?_row isRow, feed, Reader.run?_cons _ ends, following_nil, ← following_append]
      rfl
    · cases read

theorem run?_lines {lines : List Line} (legible : Legible lines) :
    (Reader.margin 0).run? (normalizeLines false
      (String.join (lines.map fun l => l.print ++ "\n")).toList) = some (tokensOf lines, .margin 0) := by
  induction lines with
  | nil => rfl
  | cons l lines ih =>
    obtain ⟨here, below⟩ := List.forall_mem_cons.mp legible
    obtain ⟨tokens, read⟩ := Option.isSome_iff_exists.mp here
    have feed : "\n".toList = ['\n'] := rfl
    have joined : tokensOf (l :: lines) = tokens ++ tokensOf lines := by
      rw [tokensOf, List.flatMap_cons, read, Option.getD_some]
      rfl
    rw [List.map_cons, String.join_cons, String.toList_append, String.toList_append, feed,
      List.append_assoc, List.singleton_append, run?_line read, ih below, joined]
    rfl

end XmlRecords.ModuleSource
