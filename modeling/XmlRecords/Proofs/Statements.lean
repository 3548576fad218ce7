import XmlRecords.ModuleSource.Module
import XmlRecords.Proofs.Fragments

/-!
Generated modules as they are read: one statement after the other, each of which is read from the lines
of its declaration alone.
-/

set_option autoImplicit false
set_option relaxedAutoImplicit false

namespace XmlRecords.SourceText

/-! ### Lines of tokens -/

def linesOf (tokens : List Token) : List Line := (splitLines 0 tokens).2

def Level (tokens : List Token) : Prop := ∀ depth, tokens.foldl Token.depthAfter depth = depth

def StartsLine : List Token → Prop
  | [] => True
  | .line _ :: _ => True
  | _ => False

theorem Level.nil : Level [] := fun _ => rfl

theorem Level.append {first rest : List Token} (h : Level first) (h' : Level rest) :
    Level (first ++ rest) := fun depth => by rw [List.foldl_append, h, h']

theorem Level.flatMap {α : Type} {tokens : α → List Token} {items : List α}
    (each : ∀ item ∈ items, Level (tokens item)) : Level (items.flatMap tokens) := by
  induction items with
  | nil => exact .nil
  | cons item items ih =>
    obtain ⟨here, below⟩ := List.forall_mem_cons.mp each
    rw [List.flatMap_cons]
    exact here.append (ih below)

theorem splitLines_fst {tokens : List Token} (starts : StartsLine tokens) :
    (splitLines 0 tokens).1 = [] := by
  cases tokens with
  | nil => rfl
  | cons token tokens =>
    cases token with
    | line margin => rw [splitLines, if_pos rfl]
    | _ => cases starts

theorem splitLines_cons {token : Token} (other : ∀ n, token ≠ .line n) (depth : Nat)
    (tokens : List Token) : splitLines depth (token :: tokens) =
      (token :: (splitLines (token.depthAfter depth) tokens).1,
        (splitLines (token.depthAfter depth) tokens).2) := by
  cases token with
  | line n => exact absurd rfl (other n)
  | _ => rfl

theorem splitLines_append {depth : Nat} {tokens rest : List Token}
    (level : tokens.foldl Token.depthAfter depth = 0) (starts : StartsLine rest) :
    splitLines depth (tokens ++ rest) =
      ((splitLines depth tokens).1, (splitLines depth tokens).2 ++ linesOf rest) := by
  induction tokens generalizing depth with
  | nil =>
    obtain rfl : depth = 0 := level
    exact Prod.ext (splitLines_fst starts) rfl
  | cons token tokens ih =>
    rw [List.foldl_cons] at level
    have below := ih level
    cases token with
    | line margin =>
      have below : splitLines depth (tokens ++ rest) =
        ((splitLines depth tokens).1, (splitLines depth tokens).2 ++ linesOf rest) := below
      rw [List.cons_append, splitLines, splitLines]
      split
      · rename_i outside
        rw [outside] at below
        rw [below]
        rfl
      · exact below
    | _ => rw [List.cons_append, splitLines_cons (by simp), splitLines_cons (by simp), below]

theorem linesOf_append {first rest : List Token} (level : Level first) (starts : StartsLine rest) :
    linesOf (first ++ rest) = linesOf first ++ linesOf rest := by
  rw [linesOf, splitLines_append (level 0) starts]
  rfl

theorem linesOf_line {margin : Nat} {tokens : List Token} (unmarked : ∀ n, Token.line n ∉ tokens) :
    linesOf (.line margin :: tokens) = [⟨margin, tokens⟩] := by
  have whole (depth : Nat) : splitLines depth tokens = (tokens, []) := by
    induction tokens generalizing depth with
    | nil => rfl
    | cons token tokens ih =>
      have below := ih (fun n member => unmarked n (List.mem_cons_of_mem token member))
      cases token with
      | line n => exact absurd List.mem_cons_self (unmarked n)
      | _ => rw [splitLines_cons (by simp), below]
  rw [linesOf, splitLines, if_pos rfl, whole]

/-! ### Statements -/

theorem flatMap_lines_blocks (lines : List Line) : (blocks lines).flatMap Block.lines = lines := by
  induction lines with
  | nil => rfl
  | cons line lines ih =>
    rw [blocks, List.flatMap_cons, Block.lines, List.cons_append, ← List.flatMap_append,
      List.takeWhile_append_dropWhile, ih]

theorem head?_blocks (lines : List Line) :
    (blocks lines).head?.map (·.margin) = lines.head?.map (·.margin) := by
  cases lines <;> rfl

theorem margin_of_mem_blocks {lines : List Line} {b : Block} (member : b ∈ blocks lines) :
    ∃ line ∈ lines, b.margin = line.margin := by
  have inside : (⟨b.margin, b.head⟩ : Line) ∈ (blocks lines).flatMap Block.lines :=
    List.mem_flatMap.mpr ⟨b, member, List.mem_cons_self⟩
  rw [flatMap_lines_blocks] at inside
  exact ⟨_, inside, rfl⟩

/-- Lines that begin no further to the right than any line before them are statements of their own. -/
theorem blocks_append {first rest : List Line}
    (low : ∀ l ∈ first, ∀ next, rest.head? = some next → next.margin ≤ l.margin) :
    blocks (first ++ rest) = blocks first ++ blocks rest := by
  induction first with
  | nil => rfl
  | cons line first ih =>
    obtain ⟨here, below⟩ := List.forall_mem_cons.mp low
    have outside : (blocks rest).head?.all (fun b => !decide (line.margin < b.margin)) = true := by
      rw [Option.all_eq_true]
      intro b isHead
      have heads := head?_blocks rest
      rw [isHead, Option.map_some, eq_comm, Option.map_eq_some_iff] at heads
      obtain ⟨next, isNext, same⟩ := heads
      simpa [← same] using here next isNext
    -- The rest begins no deeper than the line, so nothing of it goes into the body.
    have stop : (blocks rest).takeWhile (line.margin < ·.margin) = [] ∧
        (blocks rest).dropWhile (line.margin < ·.margin) = blocks rest := by
      cases shape : blocks rest with
      | nil => exact ⟨rfl, rfl⟩
      | cons b bs =>
        rw [shape] at outside
        simp only [List.head?_cons, Option.all_some, Bool.not_eq_true', decide_eq_false_iff_not]
          at outside
        simp [List.takeWhile, List.dropWhile, outside]
    have cut (bs : List Block) :
        (bs ++ blocks rest).takeWhile (line.margin < ·.margin) = bs.takeWhile (line.margin < ·.margin) ∧
          (bs ++ blocks rest).dropWhile (line.margin < ·.margin) =
            bs.dropWhile (line.margin < ·.margin) ++ blocks rest := by
      induction bs with
      | nil => exact stop
      | cons b bs ih => by_cases inside : line.margin < b.margin <;> simp [inside, ih]
    rw [List.cons_append, blocks, blocks, ih below, (cut _).1, (cut _).2, List.cons_append]

/-- Lines that begin at a margin and go no further to the left. -/
structure StartsAt (margin : Nat) (lines : List Line) : Prop where
  start : lines.head?.map (·.margin) = some margin
  right : ∀ l ∈ lines, margin ≤ l.margin

theorem margin_of_head?_flatMap {α : Type} {lines : α → List Line} {items : List α} {margin : Nat}
    (each : ∀ item ∈ items, StartsAt margin (lines item)) {next : Line}
    (isNext : (items.flatMap lines).head? = some next) : next.margin = margin := by
  cases items with
  | nil => cases isNext
  | cons item items =>
    have start := (each item List.mem_cons_self).start
    rw [List.flatMap_cons] at isNext
    cases shape : lines item with
    | nil => simp [shape] at start
    | cons first rest =>
      rw [shape, List.cons_append, List.head?_cons] at isNext
      obtain rfl := Option.some.inj isNext
      simpa [shape] using start

theorem blocks_flatMap {α : Type} {lines : α → List Line} {items : List α} {margin : Nat}
    (each : ∀ item ∈ items, StartsAt margin (lines item)) :
    blocks (items.flatMap lines) = items.flatMap fun item => blocks (lines item) := by
  induction items with
  | nil => rfl
  | cons item items ih =>
    obtain ⟨here, below⟩ := List.forall_mem_cons.mp each
    rw [List.flatMap_cons, List.flatMap_cons, ← ih below]
    exact blocks_append fun l member next isNext =>
      (margin_of_head?_flatMap below isNext).symm ▸ here.right l member

theorem blocks_cons {line : Line} {inner : List Line} (right : ∀ l ∈ inner, line.margin < l.margin) :
    blocks (line :: inner) = [⟨line.margin, line.tokens, inner⟩] := by
  have all : ∀ b ∈ blocks inner, decide (line.margin < b.margin) = true := by
    intro b member
    obtain ⟨l, inside, same⟩ := margin_of_mem_blocks member
    rw [same]
    exact decide_eq_true (right l inside)
  rw [blocks, List.takeWhile_eq_self_iff.mpr all, List.dropWhile_eq_nil_iff.mpr all,
    flatMap_lines_blocks]

end XmlRecords.SourceText

namespace XmlRecords.ModuleSource

open SourceText
open Xml (normalizeLines)

/-! ### Modules -/

def readLines (lines : List Line) : List SourceText.Line := linesOf (tokensOf lines)

def Declaration.statements (d : Declaration) : List Block := blocks (readLines d.lines)

/-- Lines that can be read, begin at the margin, and leave no bracket open. -/
structure Declaration.Readable (d : Declaration) : Prop where
  legible : Legible d.lines
  level : Level (tokensOf d.lines)
  starts : ∃ tokens, tokensOf d.lines = .line 0 :: tokens

theorem tokensOf_append (first rest : List Line) :
    tokensOf (first ++ rest) = tokensOf first ++ tokensOf rest := List.flatMap_append

theorem tokensOf_flatMap {α : Type} (lines : α → List Line) (items : List α) :
    tokensOf (items.flatMap lines) = items.flatMap fun item => tokensOf (lines item) :=
  List.flatMap_assoc

theorem Legible.append {first rest : List Line} (h : Legible first) (h' : Legible rest) :
    Legible (first ++ rest) := List.forall_mem_append.mpr ⟨h, h'⟩

theorem Legible.flatMap {α : Type} {lines : α → List Line} {items : List α}
    (each : ∀ item ∈ items, Legible (lines item)) : Legible (items.flatMap lines) :=
  List.forall_mem_flatMap.mpr each

theorem tokensOf_blanks (n : Nat) : tokensOf (List.replicate n .blank) = [] :=
  List.flatMap_eq_nil_iff.mpr fun l member => by
    rw [List.eq_of_mem_replicate member]
    rfl

theorem tokensOf_group (g : Group) :
    tokensOf g.lines = g.declarations.flatMap fun d => tokensOf d.lines := by
  unfold Group.lines
  split
  · rename_i empty
    rw [List.isEmpty_iff.mp empty]
    rfl
  · rw [tokensOf_append, tokensOf_blanks, tokensOf_flatMap, List.nil_append]

theorem legible_group {g : Group} (each : ∀ d ∈ g.declarations, Legible d.lines) :
    Legible g.lines := by
  unfold Group.lines
  split
  · exact List.forall_mem_nil _
  · refine Legible.append (fun l member => ?_) (Legible.flatMap each)
    rw [List.eq_of_mem_replicate member]
    rfl

def docStatement (points : List Nat) : Block := ⟨0, [.literal points], []⟩

theorem read?_eq (m : ModuleSource) (legible : Legible m.lines) :
    read? m.print = some (blocks (readLines m.lines)) := by
  rw [read?, tokens?, print, run?_lines legible]
  rfl

theorem readLines_declaration {d : Declaration} (readable : d.Readable) :
    StartsAt 0 (readLines d.lines) := by
  obtain ⟨tokens, starts⟩ := readable.starts
  refine ⟨?_, fun _ _ => Nat.zero_le _⟩
  rw [readLines, starts, linesOf, splitLines, if_pos rfl]
  rfl

/-- A module reads as its documentation, and then its declarations one by one. -/
theorem read?_print {m : ModuleSource} {points : List Nat}
    (doc : (Piece.doc m.docText).fragment? = some ⟨[.literal points], false, false, true⟩)
    (readable : ∀ d ∈ m.declarations, d.Readable) :
    read? m.print = some (docStatement points :: m.declarations.flatMap Declaration.statements) := by
  have docLine : Line.tokens? ⟨0, [.doc m.docText]⟩ = some [.line 0, .literal points] := by
    simp [Line.tokens?, rowTokens?, doc]
  have groups : tokensOf (m.groups.flatMap Group.lines) =
      m.declarations.flatMap fun d => tokensOf d.lines := by
    rw [tokensOf_flatMap, declarations, List.flatMap_assoc]
    exact List.flatMap_congr fun g _ => tokensOf_group g
  have legible : Legible m.lines := by
    refine List.forall_mem_cons.mpr ⟨by rw [docLine]; rfl, Legible.flatMap fun g member => ?_⟩
    exact legible_group fun d inside => (readable d (List.mem_flatMap.mpr ⟨g, member, inside⟩)).legible
  have starts (ds : List Declaration) (each : ∀ d ∈ ds, d.Readable) :
      StartsLine (ds.flatMap fun d => tokensOf d.lines) := by
    cases ds with
    | nil => trivial
    | cons d ds =>
      obtain ⟨tokens, own⟩ := (each d List.mem_cons_self).starts
      rw [List.flatMap_cons, own]
      trivial
  -- Each declaration closes its brackets and begins on a line of its own, so it is read apart from the others.
  have split (ds : List Declaration) (each : ∀ d ∈ ds, d.Readable) :
      linesOf (ds.flatMap fun d => tokensOf d.lines) = ds.flatMap fun d => readLines d.lines := by
    induction ds with
    | nil => rfl
    | cons d ds ih =>
      obtain ⟨here, below⟩ := List.forall_mem_cons.mp each
      rw [List.flatMap_cons, List.flatMap_cons, linesOf_append here.level (starts ds below), ih below]
      rfl
  have whole : readLines m.lines =
      ⟨0, [.literal points]⟩ :: m.declarations.flatMap fun d => readLines d.lines := by
    have joined : tokensOf m.lines =
        [Token.line 0, .literal points] ++ m.declarations.flatMap fun d => tokensOf d.lines := by
      rw [lines, tokensOf, List.flatMap_cons, docLine, ← groups]
      rfl
    rw [readLines, joined, linesOf_append (fun _ => rfl) (starts _ readable), split _ readable]
    rfl
  rw [read?_eq m legible, whole, ← List.singleton_append, blocks_append, blocks_flatMap]
  · rfl
  · exact fun d member => readLines_declaration (readable d member)
  · intro l member next isNext
    rw [margin_of_head?_flatMap (fun d inside => readLines_declaration (readable d inside)) isNext]
    exact Nat.zero_le _

end XmlRecords.ModuleSource
