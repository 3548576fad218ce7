import Mathlib.Data.List.Basic
import XmlRecords.Identifier

/-!
Texts in pieces. The pieces of a text are its longest runs of characters other than dividers, in the order
in which they stand there; laying pieces out with dividers between them loses and adds nothing.
-/

set_option autoImplicit false
set_option relaxedAutoImplicit false

namespace XmlRecords.Identifier

variable {isDivider : Char → Bool} {cs part : List Char} {parts : List (List Char)}

def IsPiece (isDivider : Char → Bool) (cs : List Char) : Prop :=
  cs ≠ [] ∧ ∀ c ∈ cs, isDivider c = false

instance (isDivider : Char → Bool) (cs : List Char) : Decidable (IsPiece isDivider cs) :=
  decidable_of_iff (cs ≠ [] ∧ cs.all (!isDivider ·) = true) (by simp [IsPiece])

/-- Pieces are laid out in a text: dividers stand between them, and may stand before and after. -/
inductive LaidOut (isDivider : Char → Bool) : List (List Char) → List Char → Prop
  | nil : LaidOut isDivider [] []
  | divider {c : Char} {parts : List (List Char)} {cs : List Char} : isDivider c = true →
      LaidOut isDivider parts cs → LaidOut isDivider parts (c :: cs)
  | piece {part : List Char} {parts : List (List Char)} {cs : List Char} : IsPiece isDivider part →
      (∀ c ∈ cs.head?, isDivider c = true) → LaidOut isDivider parts cs →
      LaidOut isDivider (part :: parts) (part ++ cs)

def RunAt (isDivider : Char → Bool) (cs : List Char) (start : Nat) (run : List Char) : Prop :=
  ∃ before after, cs = before ++ (run ++ after) ∧ before.length = start ∧ IsPiece isDivider run ∧
    (∀ c ∈ before.getLast?, isDivider c = true) ∧ ∀ c ∈ after.head?, isDivider c = true

/-! ### Pieces of laid out texts -/

theorem pieces_append_divider {c : Char} (divides : isDivider c = true) (xs ys : List Char) :
    pieces isDivider (xs ++ c :: ys) = pieces isDivider xs ++ pieces isDivider ys := by
  rw [pieces, List.splitOnP_append_cons xs ys divides, List.filter_append, pieces, pieces]

theorem pieces_nil : pieces isDivider [] = [] := rfl

theorem pieces_cons_divider {c : Char} (divides : isDivider c = true) (cs : List Char) :
    pieces isDivider (c :: cs) = pieces isDivider cs :=
  pieces_append_divider divides [] cs

theorem pieces_of_isPiece (piece : IsPiece isDivider cs) : pieces isDivider cs = [cs] := by
  rw [pieces, List.splitOnP_eq_singleton piece.2]
  simp [piece.1]

theorem pieces_append_of_isPiece (piece : IsPiece isDivider part)
    (ends : ∀ c ∈ cs.head?, isDivider c = true) :
    pieces isDivider (part ++ cs) = part :: pieces isDivider cs := by
  cases cs with
  | nil => rw [List.append_nil, pieces_of_isPiece piece, pieces_nil]
  | cons c cs =>
    have divides := ends c rfl
    rw [pieces_append_divider divides, pieces_of_isPiece piece, pieces_cons_divider divides,
      List.singleton_append]

theorem LaidOut.pieces_eq (laid : LaidOut isDivider parts cs) : pieces isDivider cs = parts := by
  induction laid with
  | nil => exact pieces_nil
  | divider divides _ ih => rw [pieces_cons_divider divides, ih]
  | piece isPiece ends _ ih => rw [pieces_append_of_isPiece isPiece ends, ih]

theorem LaidOut.dividers {before : List Char} (divide : ∀ c ∈ before, isDivider c = true)
    (laid : LaidOut isDivider parts cs) : LaidOut isDivider parts (before ++ cs) := by
  induction before with
  | nil => exact laid
  | cons c before ih =>
    obtain ⟨divides, rest⟩ := List.forall_mem_cons.mp divide
    exact .divider divides (ih rest)

theorem laidOut_intercalate {c : Char} (divides : isDivider c = true)
    (allPieces : ∀ part ∈ parts, IsPiece isDivider part) :
    LaidOut isDivider parts ([c].intercalate parts) := by
  induction parts with
  | nil => exact .nil
  | cons part parts ih =>
    obtain ⟨piece, others⟩ := List.forall_mem_cons.mp allPieces
    cases parts with
    | nil =>
      have alone : LaidOut isDivider [part] (part ++ []) := .piece piece (by simp) .nil
      rw [List.append_nil] at alone
      rwa [List.intercalate_singleton]
    | cons next parts =>
      rw [List.intercalate_cons_cons, List.append_assoc, List.singleton_append]
      exact .piece piece (by simpa using divides) (.divider divides (ih others))

theorem LaidOut.exists_cons {c : Char} (solid : isDivider c = false)
    (laid : LaidOut isDivider parts cs) : ∃ parts, LaidOut isDivider parts (c :: cs) := by
  have alone : IsPiece isDivider [c] := ⟨by simp, by simpa using solid⟩
  cases laid with
  | nil => exact ⟨[[c]], .piece alone (by simp) .nil⟩
  | divider divides inner => exact ⟨_, .piece alone (by simpa using divides) (.divider divides inner)⟩
  | @piece part _ _ piece ends inner =>
    have longer : IsPiece isDivider (c :: part) :=
      ⟨by simp, List.forall_mem_cons.mpr ⟨solid, piece.2⟩⟩
    exact ⟨_, .piece longer ends inner⟩

theorem exists_laidOut (isDivider : Char → Bool) (cs : List Char) :
    ∃ parts, LaidOut isDivider parts cs := by
  induction cs with
  | nil => exact ⟨[], .nil⟩
  | cons c cs ih =>
    obtain ⟨parts, laid⟩ := ih
    cases divides : isDivider c with
    | true => exact ⟨parts, .divider divides laid⟩
    | false => exact laid.exists_cons divides

theorem pieces_eq_iff : pieces isDivider cs = parts ↔ LaidOut isDivider parts cs := by
  constructor
  · rintro rfl
    obtain ⟨parts, laid⟩ := exists_laidOut isDivider cs
    rwa [laid.pieces_eq]
  · exact LaidOut.pieces_eq

theorem laidOut_pieces (isDivider : Char → Bool) (cs : List Char) :
    LaidOut isDivider (pieces isDivider cs) cs :=
  pieces_eq_iff.mp rfl

theorem LaidOut.isPiece (laid : LaidOut isDivider parts cs) :
    ∀ part ∈ parts, IsPiece isDivider part := by
  induction laid with
  | nil => simp
  | divider _ _ ih => exact ih
  | piece isPiece _ _ ih => exact List.forall_mem_cons.mpr ⟨isPiece, ih⟩

theorem LaidOut.flatten_eq (laid : LaidOut isDivider parts cs) :
    parts.flatten = cs.filter (!isDivider ·) := by
  induction laid with
  | nil => rfl
  | divider divides _ ih => rw [ih, List.filter_cons_of_neg (by simp [divides])]
  | @piece part _ _ isPiece _ _ ih =>
    have whole : part.filter (!isDivider ·) = part :=
      List.filter_eq_self.mpr fun c member => by simpa using isPiece.2 c member
    rw [List.flatten_cons, ih, List.filter_append, whole]

/-! ### Longest runs -/

variable {xs run : List Char} {start place : Nat}

theorem not_runAt_nil : ¬ RunAt isDivider [] start run := by
  rintro ⟨before, after, split, _, piece, _⟩
  have none := (List.append_eq_nil_iff.mp split.symm).2
  exact piece.1 (List.append_eq_nil_iff.mp none).1

theorem RunAt.head?_eq (runs : RunAt isDivider cs 0 run) :
    ∃ c, cs.head? = some c ∧ isDivider c = false := by
  obtain ⟨before, after, rfl, start, piece, _⟩ := runs
  obtain ⟨c, rest, rfl⟩ := List.exists_cons_of_ne_nil piece.1
  rw [List.length_eq_zero_iff.mp start]
  exact ⟨c, rfl, piece.2 c List.mem_cons_self⟩

theorem runAt_append_iff (parted : (∀ c ∈ xs.getLast?, isDivider c = true) ∨
      ∀ c ∈ cs.head?, isDivider c = true) :
    RunAt isDivider (xs ++ cs) (place + xs.length) run ↔ RunAt isDivider cs place run := by
  constructor
  · rintro ⟨before, after, split, start, piece, left, right⟩
    obtain ⟨middle, rfl⟩ : xs <+: before :=
      List.prefix_of_prefix_length_le (List.prefix_append xs cs) (split ▸ List.prefix_append _ _)
        (by omega)
    rw [List.append_assoc, List.append_cancel_left_eq] at split
    rw [List.length_append] at start
    refine ⟨middle, after, split, by omega, piece, fun c last => ?_, right⟩
    exact left c (by rw [List.getLast?_append, Option.mem_def.mp last, Option.some_or, Option.mem_def])
  · intro runs
    have parted' : ∀ c ∈ xs.getLast?, place = 0 → isDivider c = true := by
      rintro c last rfl
      rcases parted with ended | begun
      · exact ended c last
      · obtain ⟨d, first, solid⟩ := runs.head?_eq
        rw [begun d first] at solid
        cases solid
    obtain ⟨before, after, rfl, rfl, piece, left, right⟩ := runs
    refine ⟨xs ++ before, after, by simp, by simp [Nat.add_comm], piece, fun c last => ?_, right⟩
    rw [List.getLast?_append] at last
    cases inner : before.getLast? with
    | none =>
      rw [inner, Option.none_or] at last
      exact parted' c last (by rw [List.getLast?_eq_none_iff.mp inner, List.length_nil])
    | some d =>
      rw [inner, Option.some_or] at last
      exact left c (inner.trans last)

theorem runAt_append_of_lt (piece : IsPiece isDivider part) (ends : ∀ c ∈ cs.head?, isDivider c = true)
    (within : start < part.length) :
    RunAt isDivider (part ++ cs) start run ↔ start = 0 ∧ run = part := by
  have first {xs rest : List Char} (piece : IsPiece isDivider xs)
      (ends : ∀ c ∈ rest.head?, isDivider c = true) : (xs ++ rest).takeWhile (!isDivider ·) = xs := by
    rw [List.takeWhile_append_of_pos fun c member => by simpa using piece.2 c member]
    cases rest with
    | nil => simp
    | cons c rest => rw [List.takeWhile_cons_of_neg (by simpa using ends c rfl), List.append_nil]
  constructor
  · rintro ⟨before, after, split, rfl, isRun, left, right⟩
    obtain ⟨tail, rfl⟩ : before <+: part :=
      List.prefix_of_prefix_length_le (split ▸ List.prefix_append _ _) (List.prefix_append part cs)
        (Nat.le_of_lt within)
    cases last : before.getLast? with
    | some c =>
      have solid := piece.2 c (List.mem_append_left _ (List.mem_of_getLast? last))
      rw [left c last] at solid
      cases solid
    | none =>
      obtain rfl := List.getLast?_eq_none_iff.mp last
      have same := congrArg (List.takeWhile (!isDivider ·)) split
      rw [first piece ends, List.nil_append, List.nil_append, first isRun right] at same
      exact ⟨rfl, same.symm⟩
  · rintro ⟨rfl, rfl⟩
    exact ⟨[], cs, rfl, rfl, piece, by simp, ends⟩

theorem mem_shifted_iff {places : List (Nat × List Char)}
    (parted : (∀ c ∈ xs.getLast?, isDivider c = true) ∨ ∀ c ∈ cs.head?, isDivider c = true)
    (complete : ∀ start run, (start, run) ∈ places ↔ RunAt isDivider cs start run) :
    (start, run) ∈ places.map (fun place => (place.1 + xs.length, place.2)) ↔
      xs.length ≤ start ∧ RunAt isDivider (xs ++ cs) start run := by
  simp only [List.mem_map, Prod.exists, Prod.mk.injEq]
  constructor
  · rintro ⟨place, _, member, rfl, rfl⟩
    exact ⟨Nat.le_add_left _ _, (runAt_append_iff parted).mpr ((complete _ _).mp member)⟩
  · rintro ⟨after, runs⟩
    obtain ⟨place, rfl⟩ := Nat.exists_eq_add_of_le' after
    exact ⟨place, run, (complete _ _).mpr ((runAt_append_iff parted).mp runs), rfl, rfl⟩

/-- The pieces of a text are its longest runs without dividers, in order: each stands at a place of its
own, after those before it, and no run is left out. -/
theorem exists_places (isDivider : Char → Bool) (cs : List Char) :
    ∃ places : List (Nat × List Char), places.map (·.2) = pieces isDivider cs ∧
      (places.map (·.1)).Pairwise (· < ·) ∧
      ∀ start run, (start, run) ∈ places ↔ RunAt isDivider cs start run := by
  have laid := laidOut_pieces isDivider cs
  generalize pieces isDivider cs = parts at laid ⊢
  have shifted {places : List (Nat × List Char)} (ordered : (places.map (·.1)).Pairwise (· < ·))
      (n : Nat) : (places.map fun place => place.1 + n).Pairwise (· < ·) := by
    rw [List.pairwise_map] at ordered ⊢
    exact ordered.imp fun before => Nat.add_lt_add_right before n
  induction laid with
  | nil => exact ⟨[], rfl, .nil, fun start run => iff_of_false (by simp) not_runAt_nil⟩
  | @divider c _ cs divides _ ih =>
    obtain ⟨places, runs, ordered, complete⟩ := ih
    refine ⟨places.map fun place => (place.1 + [c].length, place.2), ?_, ?_, fun start run => ?_⟩
    · rwa [List.map_map]
    · rw [List.map_map]
      exact shifted ordered 1
    · rw [mem_shifted_iff (.inl (by simpa using divides)) complete]
      refine and_iff_right_of_imp fun runs => Nat.pos_of_ne_zero ?_
      rintro rfl
      obtain ⟨d, first, solid⟩ := runs.head?_eq
      rw [← Option.some.inj first, divides] at solid
      cases solid
  | @piece part _ cs isPiece ends _ ih =>
    obtain ⟨places, runs, ordered, complete⟩ := ih
    have nonempty : 0 < part.length := List.length_pos_iff.mpr isPiece.1
    refine ⟨(0, part) :: places.map fun place => (place.1 + part.length, place.2), ?_, ?_,
      fun start run => ?_⟩
    · rw [List.map_cons, List.map_map]
      exact congrArg (part :: ·) runs
    · rw [List.map_cons, List.map_map, List.pairwise_cons]
      refine ⟨fun start member => ?_, shifted ordered _⟩
      obtain ⟨place, _, rfl⟩ := List.mem_map.mp member
      exact Nat.lt_of_lt_of_le nonempty (Nat.le_add_left _ _)
    · rw [List.mem_cons, mem_shifted_iff (.inr ends) complete, Prod.mk.injEq]
      by_cases within : start < part.length
      · rw [runAt_append_of_lt isPiece ends within]
        exact or_iff_left fun later => absurd within (Nat.not_lt.mpr later.1)
      · have elsewhere : ¬ (start = 0 ∧ run = part) := by
          rintro ⟨rfl, _⟩
          exact within nonempty
        rw [or_iff_right elsewhere, and_iff_right (Nat.not_lt.mp within)]

end XmlRecords.Identifier
