import XmlRecords.Proofs.Wording

/-!
Phrases of generated source: rows of pieces that read as tokens, and what these tokens use. Lines are made
of phrases, and declarations of lines that are read one by one.
-/

set_option autoImplicit false
set_option relaxedAutoImplicit false

namespace XmlRecords.SourceText

/-! ### What tokens use -/

/-- What tokens may use: some names of classes, and codecs of some names. -/
structure Uses where
  classes : String → Prop
  codecs : String → Prop

def Uses.all : Uses := ⟨fun _ => True, fun _ => True⟩

/-- Tokens on one line that use nothing else, wherever they stand after something other than a dot. -/
structure Fine (u : Uses) (tokens : List Token) : Prop where
  unmarked : ∀ n, .line n ∉ tokens
  names : ∀ name ∈ names false tokens, isCommon name = true ∨ u.classes name
  calls : ∀ read, read.head? ≠ some (.sign '.') → ∀ call ∈ calls read tokens,
    call.2 ∈ codecMethods → u.codecs call.1
  last : tokens.getLast? ≠ some (.sign '.')

theorem names_append {first : List Token} (last : first.getLast? ≠ some (.sign '.'))
    (rest : List Token) : names false (first ++ rest) = names false first ++ names false rest := by
  have whole (dotted : Bool) (nonempty : first ≠ []) :
      names dotted (first ++ rest) = names dotted first ++ names false rest := by
    induction first generalizing dotted with
    | nil => exact absurd rfl nonempty
    | cons token tokens ih =>
      cases tokens with
      | nil =>
        cases token with
        | sign c =>
          have other : (c == '.') = false := by simpa using last
          simp [names, other]
        | _ => simp [names]
      | cons next tokens =>
        have below := fun dotted => ih (by simpa using last) dotted (by simp)
        rw [List.cons_append] at below ⊢
        cases token <;> simp [names, below]
  cases first with
  | nil => rfl
  | cons token tokens => exact whole false (by simp)

theorem calls_append (read first rest : List Token) :
    calls read (first ++ rest) = calls read first ++ calls (first.reverse ++ read) rest := by
  induction first generalizing read with
  | nil => rfl
  | cons token tokens ih =>
    rw [List.cons_append, calls, calls, ih, List.reverse_cons, List.append_assoc, List.append_assoc]
    rfl

namespace Fine

variable {u : Uses} {first rest tokens : List Token}

theorem nil : Fine u [] := ⟨by simp, by simp [SourceText.names], by simp [SourceText.calls], by simp⟩

theorem append (h : Fine u first) (h' : Fine u rest) : Fine u (first ++ rest) := by
  refine ⟨fun n => ?_, ?_, fun read apart => ?_, ?_⟩
  · rw [List.mem_append, not_or]
    exact ⟨h.unmarked n, h'.unmarked n⟩
  · rw [names_append h.last, List.forall_mem_append]
    exact ⟨h.names, h'.names⟩
  · rw [calls_append, List.forall_mem_append]
    refine ⟨h.calls read apart, h'.calls _ ?_⟩
    rw [List.head?_append, List.head?_reverse]
    cases last : first.getLast? with
    | none => simpa using apart
    | some token => simpa [last] using h.last
  · rw [List.getLast?_append]
    cases last : rest.getLast? with
    | none => simpa using h.last
    | some token => simpa [last] using h'.last

theorem flatMap {α : Type} {tokens : α → List Token} {items : List α}
    (each : ∀ item ∈ items, Fine u (tokens item)) : Fine u (items.flatMap tokens) := by
  induction items with
  | nil => exact nil
  | cons item items ih =>
    obtain ⟨here, below⟩ := List.forall_mem_cons.mp each
    rw [List.flatMap_cons]
    exact here.append (ih below)

end Fine

@[simp] theorem depthAfter_word (depth : Nat) (text : String) :
    Token.depthAfter depth (.word text) = depth := rfl

@[simp] theorem depthAfter_literal (depth : Nat) (points : List Nat) :
    Token.depthAfter depth (.literal points) = depth := rfl

@[simp] theorem depthAfter_formatted (depth : Nat) (points : List Nat) :
    Token.depthAfter depth (.formatted points) = depth := rfl

theorem Level.foldl {tokens : List Token} (level : Level tokens) (depth : Nat) :
    tokens.foldl Token.depthAfter depth = depth := level depth

end XmlRecords.SourceText

namespace XmlRecords.ModuleSource

open SourceText

/-! ### Phrases -/

theorem rowTokens?_append {first rest : List Piece} {tokens others : List Token}
    (row : rowTokens? first = some tokens) (row' : rowTokens? rest = some others)
    (apart : startsApart rest = true) : rowTokens? (first ++ rest) = some (tokens ++ others) := by
  induction first generalizing tokens with
  | nil =>
    obtain rfl := Option.some.inj row
    exact row'
  | cons p first ih =>
    simp only [rowTokens?, Option.bind_eq_bind, Option.bind_eq_some_iff] at row
    obtain ⟨f, isFragment, below, isBelow, joined⟩ := row
    have starts : startsApart (first ++ rest) = true ∨
        startsApart (first ++ rest) = startsApart first := by
      cases first with
      | nil => exact .inl apart
      | cons q first => exact .inr rfl
    split at joined
    · cases joined
    rename_i ends
    obtain rfl := Option.some.inj joined
    rw [List.cons_append, rowTokens?, isFragment, ih isBelow]
    rcases starts with starts | starts <;> simp_all

/-- A row of pieces that reads as tokens, which use nothing else and leave no bracket open. -/
structure Phrase (u : Uses) (pieces : List Piece) (tokens : List Token) : Prop where
  row : rowTokens? pieces = some tokens
  fine : Fine u tokens
  level : Level tokens

@[simp] theorem fragment?_plain (text : String) :
    (Piece.plain text).fragment? = SourceText.fragment? text := rfl

/-! ### Lines -/

def shift (blanks : Nat) (l : SourceText.Line) : SourceText.Line := { l with margin := l.margin + blanks }

/-- Lines that are read as the lines given, each by itself, when they are moved so far to the right. -/
structure ReadsAt (by_ : Nat) (lines : List Line) (read : List SourceText.Line) : Prop where
  legible : Legible (lines.map (Line.indent by_))
  level : Level (tokensOf (lines.map (Line.indent by_)))
  starts : StartsLine (tokensOf (lines.map (Line.indent by_)))
  isRead : readLines (lines.map (Line.indent by_)) = read.map (shift (4 * by_))

def Reads (lines : List Line) (read : List SourceText.Line) : Prop := ∀ by_, ReadsAt by_ lines read

theorem ReadsAt.of_tokens {by_ : Nat} {lines : List Line} {read : List SourceText.Line}
    (tokens : List Token) (legible : Legible (lines.map (Line.indent by_)))
    (isTokens : tokensOf (lines.map (Line.indent by_)) = tokens) (level : Level tokens)
    (starts : StartsLine tokens) (isRead : linesOf tokens = read.map (shift (4 * by_))) :
    ReadsAt by_ lines read :=
  ⟨legible, isTokens ▸ level, isTokens ▸ starts, by rw [readLines, isTokens, isRead]⟩

namespace Reads

variable {lines first rest : List Line} {read others : List SourceText.Line}

theorem nil : Reads [] [] := fun _ => ⟨List.forall_mem_nil _, .nil, trivial, rfl⟩

theorem append (h : Reads first read) (h' : Reads rest others) :
    Reads (first ++ rest) (read ++ others) := by
  intro n
  obtain ⟨legible, level, starts, isRead⟩ := h n
  obtain ⟨legible', level', starts', isRead'⟩ := h' n
  refine .of_tokens _ ?_ (by rw [List.map_append, tokensOf_append]) (level.append level') ?_ ?_
  · rw [List.map_append]
    exact legible.append legible'
  · cases shape : tokensOf (first.map (Line.indent n)) with
    | nil => exact starts'
    | cons token tokens =>
      rw [shape] at starts
      cases token with
      | line _ => trivial
      | _ => cases starts
  · rw [linesOf_append level starts', List.map_append, ← isRead, ← isRead']
    rfl

theorem cons {line : Line} {own : List SourceText.Line} (h : Reads [line] own) (h' : Reads rest others) :
    Reads (line :: rest) (own ++ others) := h.append h'

theorem flatMap {α : Type} {lines : α → List Line} {read : α → List SourceText.Line} {items : List α}
    (each : ∀ item ∈ items, Reads (lines item) (read item)) :
    Reads (items.flatMap lines) (items.flatMap read) := by
  induction items with
  | nil => exact nil
  | cons item items ih =>
    obtain ⟨here, below⟩ := List.forall_mem_cons.mp each
    rw [List.flatMap_cons, List.flatMap_cons]
    exact here.append (ih below)

theorem map {α : Type} {line : α → Line} {read : α → SourceText.Line} {items : List α}
    (each : ∀ item ∈ items, Reads [line item] [read item]) :
    Reads (items.map line) (items.map read) := by
  rw [List.map_eq_flatMap, List.map_eq_flatMap]
  exact flatMap each

theorem eq (h : Reads lines read) : readLines lines = read := by
  have still : lines.map (Line.indent 0) = lines := List.map_id' lines
  have still' : read.map (shift (4 * 0)) = read := List.map_id' read
  have isRead := (h 0).isRead
  rwa [still, still'] at isRead

theorem indent (h : Reads lines read) (by_ : Nat) :
    Reads (lines.map (Line.indent by_)) (read.map (shift (4 * by_))) := by
  intro n
  have twice : (lines.map (Line.indent by_)).map (Line.indent n) = lines.map (Line.indent (by_ + n)) := by
    rw [List.map_map]
    exact List.map_congr_left fun l _ => by simp [Line.indent, Nat.add_assoc]
  have twice' : (read.map (shift (4 * by_))).map (shift (4 * n)) = read.map (shift (4 * (by_ + n))) := by
    rw [List.map_map]
    exact List.map_congr_left fun l _ => by simp [shift, Nat.mul_add, Nat.add_assoc]
  obtain ⟨legible, level, starts, isRead⟩ := h (by_ + n)
  exact ⟨twice ▸ legible, twice ▸ level, twice ▸ starts, by rw [twice, twice', isRead]⟩

theorem blank : Reads [.blank] [] := fun n =>
  .of_tokens [] (by simp [Legible, Line.tokens?, Line.blank, Line.indent]) rfl .nil trivial rfl

end Reads

def beginsRow (pieces : List Piece) : Bool := (pieces.head?.bind Piece.fragment?).any (·.begins)

theorem tokens?_of_row {pieces : List Piece} {tokens : List Token} (begins : beginsRow pieces = true)
    (isRow : rowTokens? pieces = some tokens) (depth : Nat) :
    Line.tokens? ⟨depth, pieces⟩ = some (.line (4 * depth) :: tokens) := by
  cases pieces with
  | nil => cases begins
  | cons p rest =>
    have begins : p.fragment?.any (·.begins) = true := begins
    simp [Line.tokens?, begins, isRow]

theorem tokens?_printPieces {pieces : List Piece} {tokens : List Token} (begins : beginsRow pieces = true)
    (isRow : rowTokens? pieces = some tokens) :
    SourceText.tokens? (printPieces pieces ++ "\n") = some (.line 0 :: tokens) := by
  have read := tokens?_of_row begins isRow 0
  have legible : Legible [⟨0, pieces⟩] := List.forall_mem_singleton.mpr (by rw [read]; rfl)
  have text : String.join ([(⟨0, pieces⟩ : Line)].map fun l => l.print ++ "\n") = printPieces pieces ++ "\n" := by
    cases pieces with
    | nil => cases begins
    | cons p rest => simp [Line.print, String.join]
  have run := run?_lines legible
  rw [text, tokensOf, List.flatMap_singleton, read] at run
  rw [SourceText.tokens?, run]
  rfl

theorem Reads.row {depth : Nat} {pieces : List Piece} {tokens : List Token}
    (begins : beginsRow pieces = true) (isRow : rowTokens? pieces = some tokens)
    (unmarked : ∀ n, .line n ∉ tokens) (level : Level tokens) :
    Reads [⟨depth, pieces⟩] [⟨4 * depth, tokens⟩] := by
  intro n
  have read := tokens?_of_row begins isRow (depth + n)
  refine .of_tokens (.line (4 * (depth + n)) :: tokens) ?_ ?_ level trivial ?_
  · exact List.forall_mem_singleton.mpr (by rw [Line.indent, read]; rfl)
  · rw [tokensOf, List.map_singleton, List.flatMap_singleton, Line.indent, read]
    rfl
  · rw [linesOf_line unmarked, List.map_singleton, shift, Nat.mul_add]

theorem Phrase.reads {u : Uses} {depth : Nat} {pieces : List Piece} {tokens : List Token}
    (h : Phrase u pieces tokens) (begins : beginsRow pieces = true) :
    Reads [⟨depth, pieces⟩] [⟨4 * depth, tokens⟩] :=
  .row begins h.row h.fine.unmarked h.level

def docPoints (text : String) : List Nat := (Xml.normalizeLines false text.toList).map Char.toNat

theorem fragment?_docPiece {text : String} (isDoc : IsDocText text) :
    (Piece.doc text).fragment? = some ⟨[.literal (docPoints text)], false, false, true⟩ :=
  fragment?_doc isDoc

theorem reads_doc {text : String} (isDoc : IsDocText text) :
    Reads [⟨0, [.doc text]⟩] [⟨0, [.literal (docPoints text)]⟩] := by
  have isFragment := fragment?_docPiece isDoc
  refine .row ?_ ?_ ?_ fun _ => rfl
  · simp [beginsRow, isFragment]
  · simp [rowTokens?, isFragment]
  · simp

/-! ### Brackets -/

theorem splitLines_unmarked {tokens : List Token} (unmarked : ∀ n, .line n ∉ tokens) (depth : Nat)
    (rest : List Token) : splitLines depth (tokens ++ rest) =
      (tokens ++ (splitLines (tokens.foldl Token.depthAfter depth) rest).1,
        (splitLines (tokens.foldl Token.depthAfter depth) rest).2) := by
  induction tokens generalizing depth with
  | nil => rfl
  | cons token tokens ih =>
    have below := ih (fun n member => unmarked n (List.mem_cons_of_mem token member))
    rw [List.cons_append, splitLines_cons (by rintro n rfl; exact unmarked n List.mem_cons_self), below]
    rfl

theorem splitLines_inside {α : Type} (margin : α → Nat) {tokens : α → List Token} {items : List α}
    (unmarked : ∀ item ∈ items, ∀ n, .line n ∉ tokens item) (level : ∀ item ∈ items, Level (tokens item))
    (depth : Nat) (rest : List Token) :
    splitLines (depth + 1) (items.flatMap (fun item => .line (margin item) :: tokens item) ++ rest) =
      (items.flatMap tokens ++ (splitLines (depth + 1) rest).1, (splitLines (depth + 1) rest).2) := by
  induction items with
  | nil => rfl
  | cons item items ih =>
    obtain ⟨here, below⟩ := List.forall_mem_cons.mp unmarked
    obtain ⟨own, others⟩ := List.forall_mem_cons.mp level
    rw [List.flatMap_cons, List.flatMap_cons, List.cons_append, List.cons_append, splitLines,
      if_neg (Nat.succ_ne_zero depth), List.append_assoc, splitLines_unmarked here, own, ih below others,
      List.append_assoc]

/-- Lines inside brackets go on from the line on which the bracket was opened. -/
theorem Reads.bracketed {α : Type} {depth : Nat} {opening closing : List Piece} {inner : α → Line}
    {opens closes : List Token} {tokens : α → List Token} {items : List α}
    (begins : beginsRow opening = true) (isOpening : rowTokens? opening = some opens)
    (begins' : beginsRow closing = true) (isClosing : rowTokens? closing = some closes)
    (each : ∀ item ∈ items, beginsRow (inner item).pieces = true ∧
      rowTokens? (inner item).pieces = some (tokens item) ∧ (∀ n, .line n ∉ tokens item) ∧
        Level (tokens item))
    (unmarked : ∀ n, .line n ∉ opens ∧ .line n ∉ closes)
    (one : ∀ d, opens.foldl Token.depthAfter d = d + 1 ∧ closes.foldl Token.depthAfter (d + 1) = d) :
    Reads (⟨depth, opening⟩ :: items.map inner ++ [⟨depth, closing⟩])
      [⟨4 * depth, opens ++ items.flatMap tokens ++ closes⟩] := by
  intro n
  have isOpen := tokens?_of_row begins isOpening (depth + n)
  have isClosed := tokens?_of_row begins' isClosing (depth + n)
  let marked (item : α) := Token.line (4 * ((inner item).depth + n)) :: tokens item
  have isItem (item : α) (member : item ∈ items) :
      ((inner item).indent n).tokens? = some (marked item) :=
    tokens?_of_row (each item member).1 (each item member).2.1 ((inner item).depth + n)
  have joined : tokensOf ((⟨depth, opening⟩ :: items.map inner ++ [⟨depth, closing⟩] : List Line).map
      (Line.indent n)) = .line (4 * (depth + n)) :: (opens ++ (items.flatMap marked ++
        .line (4 * (depth + n)) :: closes)) := by
    have between : tokensOf ((items.map inner).map (Line.indent n)) = items.flatMap marked := by
      rw [tokensOf, List.map_map, List.flatMap_map]
      exact List.flatMap_congr fun item member => by rw [Function.comp_apply, isItem item member]; rfl
    rw [List.map_append, List.map_cons, tokensOf_append, tokensOf, List.flatMap_cons, ← tokensOf, between,
      Line.indent, isOpen, List.map_singleton, Line.indent, tokensOf, List.flatMap_singleton, isClosed]
    simp
  have level : Level (items.flatMap marked) := Level.flatMap fun item member depth =>
    (each item member).2.2.2 depth
  have closed := splitLines_unmarked (fun n => (unmarked n).2) 1 []
  rw [(one 0).2, List.append_nil] at closed
  -- Inside the bracket no line ends, so the items are read on the line on which it was opened.
  have inside := splitLines_inside (fun item => 4 * ((inner item).depth + n))
    (fun item member => (each item member).2.2.1) (fun item member => (each item member).2.2.2) 0
    (.line (4 * (depth + n)) :: closes)
  refine .of_tokens _ ?_ joined ?_ trivial ?_
  · simp only [List.map_append, List.map_cons, List.map_nil]
    refine Legible.append (List.forall_mem_cons.mpr ⟨by rw [Line.indent, isOpen]; rfl, ?_⟩)
      (List.forall_mem_singleton.mpr (by rw [Line.indent, isClosed]; rfl))
    rw [List.map_map]
    exact List.forall_mem_map.mpr fun item member => by
      rw [Function.comp_apply, isItem item member]
      rfl
  · intro d
    rw [List.foldl_cons, List.foldl_append, List.foldl_append, List.foldl_cons]
    show closes.foldl Token.depthAfter ((items.flatMap marked).foldl Token.depthAfter
      (opens.foldl Token.depthAfter d)) = d
    rw [level, (one d).1, (one d).2]
  · rw [linesOf, splitLines, if_pos rfl, splitLines_unmarked fun n => (unmarked n).1, (one 0).1, inside,
      splitLines, if_neg (Nat.succ_ne_zero 0), closed]
    simp [splitLines, shift, Nat.mul_add]

/-! ### Fine lines -/

/-- Lines that are read, wherever they stand, as lines of fine tokens. -/
def ReadsFine (u : Uses) (lines : List Line) : Prop :=
  ∃ read, Reads lines read ∧ ∀ l ∈ read, Fine u l.tokens

namespace ReadsFine

variable {u : Uses} {lines first rest : List Line}

theorem nil : ReadsFine u [] := ⟨[], .nil, List.forall_mem_nil _⟩

theorem append (h : ReadsFine u first) (h' : ReadsFine u rest) : ReadsFine u (first ++ rest) := by
  obtain ⟨read, reads, fine⟩ := h
  obtain ⟨others, reads', fine'⟩ := h'
  exact ⟨_, reads.append reads', List.forall_mem_append.mpr ⟨fine, fine'⟩⟩

theorem cons {line : Line} (h : ReadsFine u [line]) (h' : ReadsFine u rest) :
    ReadsFine u (line :: rest) := h.append h'

theorem reads (h : ReadsFine u lines) : Reads lines (readLines lines) := by
  obtain ⟨read, reads, _⟩ := h
  rwa [reads.eq]

theorem readLines_append (h : ReadsFine u first) (h' : ReadsFine u rest) :
    readLines (first ++ rest) = readLines first ++ readLines rest := (h.reads.append h'.reads).eq

theorem flatMap {α : Type} {lines : α → List Line} {items : List α}
    (each : ∀ item ∈ items, ReadsFine u (lines item)) : ReadsFine u (items.flatMap lines) := by
  induction items with
  | nil => exact nil
  | cons item items ih =>
    obtain ⟨here, below⟩ := List.forall_mem_cons.mp each
    rw [List.flatMap_cons]
    exact here.append (ih below)

theorem map {α : Type} {line : α → Line} {items : List α} (each : ∀ item ∈ items, ReadsFine u [line item]) :
    ReadsFine u (items.map line) := by
  rw [List.map_eq_flatMap]
  exact flatMap each

theorem indent (h : ReadsFine u lines) (by_ : Nat) : ReadsFine u (lines.map (Line.indent by_)) := by
  obtain ⟨read, reads, fine⟩ := h
  refine ⟨_, reads.indent by_, ?_⟩
  rw [List.forall_mem_map]
  exact fine

theorem row {depth : Nat} {pieces : List Piece} (tokens : List Token) (begins : beginsRow pieces = true)
    (isRow : rowTokens? pieces = some tokens) (fine : Fine u tokens) (level : Level tokens) :
    ReadsFine u [⟨depth, pieces⟩] :=
  ⟨_, .row begins isRow fine.unmarked level, List.forall_mem_singleton.mpr fine⟩

theorem bracketed {α : Type} {depth : Nat} {opening closing : List Piece} {inner : α → Line}
    {items : List α} (opens closes : List Token) (tokens : α → List Token)
    (isOpening : beginsRow opening = true ∧ rowTokens? opening = some opens ∧ Fine u opens)
    (isClosing : beginsRow closing = true ∧ rowTokens? closing = some closes ∧ Fine u closes)
    (each : ∀ item ∈ items, beginsRow (inner item).pieces = true ∧
      rowTokens? (inner item).pieces = some (tokens item) ∧ Fine u (tokens item) ∧ Level (tokens item))
    (one : ∀ d, opens.foldl Token.depthAfter d = d + 1 ∧ closes.foldl Token.depthAfter (d + 1) = d) :
    ReadsFine u (⟨depth, opening⟩ :: items.map inner ++ [⟨depth, closing⟩]) := by
  obtain ⟨begins, isOpen, fine⟩ := isOpening
  obtain ⟨begins', isClosed, fine'⟩ := isClosing
  refine ⟨[⟨4 * depth, opens ++ items.flatMap tokens ++ closes⟩], .bracketed begins isOpen begins' isClosed
    (fun item member => ?_) (fun n => ⟨fine.unmarked n, fine'.unmarked n⟩) one, ?_⟩
  · obtain ⟨begins, isRow, fine, level⟩ := each item member
    exact ⟨begins, isRow, fine.unmarked, level⟩
  · rw [List.forall_mem_singleton]
    exact (fine.append (.flatMap fun item member => (each item member).2.2.1)).append fine'

end ReadsFine

theorem Phrase.readsFine {u : Uses} {depth : Nat} {pieces : List Piece} {tokens : List Token}
    (h : Phrase u pieces tokens) (begins : beginsRow pieces = true) : ReadsFine u [⟨depth, pieces⟩] :=
  .row _ begins h.row h.fine h.level

end XmlRecords.ModuleSource
