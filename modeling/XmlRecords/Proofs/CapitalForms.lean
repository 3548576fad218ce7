import Mathlib.Data.List.Basic
import XmlRecords.Text.Capital
import XmlRecords.Text.IdentifierChar

/-!
Capital forms and identifiers. Whether a character may be part of an identifier does not change when it
is capitalized, and a capital form never begins with a small letter of ASCII, nor with an underscore
unless that is the character itself.
-/

set_option autoImplicit false
set_option relaxedAutoImplicit false

namespace XmlRecords.Text

/-! ### Ranges -/

/-- Whether the code points from `a` to `b` lie in one of several ranges, or outside of them. -/
def whole? : List (Nat × Nat) → (a b : Nat) → Option Bool
  | [], _, _ => some false
  | (first, last) :: ranges, a, b =>
    bif a.ble last then
      bif first.ble a && b.ble last then some true
      else bif (b + 1).ble first && b.ble last then some false
      else none
    else whole? ranges a b

theorem inRanges_of_whole? {ranges : List (Nat × Nat)} {a b code : Nat} {inside : Bool}
    (whole : whole? ranges a b = some inside) (least : a ≤ code) (greatest : code ≤ b) :
    inRanges ranges code = inside := by
  induction ranges with
  | nil => exact Option.some.inj whole
  | cons range ranges ih =>
    obtain ⟨first, last⟩ := range
    simp only [whole?, cond_eq_ite, Bool.and_eq_true, Nat.ble_eq] at whole
    simp only [inRanges, cond_eq_ite, Nat.ble_eq]
    split at whole
    · split at whole
      · rename_i contains
        obtain rfl := Option.some.inj whole
        rw [if_pos (by omega), Nat.ble_eq]
        omega
      · split at whole
        · rename_i before
          obtain rfl := Option.some.inj whole
          rw [if_pos (by omega), ← Bool.not_eq_true, Nat.ble_eq]
          omega
        · cases whole
    · rw [if_neg (by omega)]
      exact ih whole

def isPartCode (code : Nat) : Bool := inRanges identifierStarts code || inRanges identifierMarks code

/-- Whether the code points from `a` to `b` may all be part of identifiers, or none of them. -/
def wholePart? (a b : Nat) : Option Bool :=
  match whole? identifierStarts a b with
  | some true => some true
  | some false => whole? identifierMarks a b
  | none => none

theorem isPartCode_of_wholePart? {a b code : Nat} {inside : Bool} (whole : wholePart? a b = some inside)
    (least : a ≤ code) (greatest : code ≤ b) : isPartCode code = inside := by
  unfold wholePart? at whole
  unfold isPartCode
  cases starts : whole? identifierStarts a b with
  | none =>
    rw [starts] at whole
    cases whole
  | some inStarts =>
    rw [starts] at whole
    rw [inRanges_of_whole? starts least greatest]
    cases inStarts with
    | true => exact Option.some.inj whole
    | false => exact inRanges_of_whole? whole least greatest

/-! ### Runs -/

namespace CapitalRun

def capitalCode (run : CapitalRun) (code : Nat) : Nat := (code + run.offset).toNat

def codes (run : CapitalRun) : List Nat :=
  (List.range ((run.last - run.first) / run.step + 1)).map fun n => run.first + n * run.step

/-- The characters of a run may be part of identifiers as their capitals may. -/
def keepsPart (run : CapitalRun) : Bool :=
  match wholePart? run.first run.last,
    wholePart? (run.capitalCode run.first) (run.capitalCode run.last) with
  | some small, some capital => small == capital
  | _, _ => run.codes.all fun code => isPartCode (run.capitalCode code) == isPartCode code

/-- The capitals of a run are characters, and none of them an underscore or a small letter of ASCII. -/
def isProper (run : CapitalRun) : Bool :=
  let least := run.capitalCode run.first
  let greatest := run.capitalCode run.last
  (greatest < 0xD800 || 0xDFFF < least && greatest < 0x110000) &&
    (greatest < '_'.toNat || 'z'.toNat < least)

theorem keepsPart_of_mem : ∀ run ∈ capitalRuns, run.keepsPart = true := by
  decide +kernel

theorem isProper_of_mem : ∀ run ∈ capitalRuns, run.isProper = true := by
  decide +kernel

variable {run : CapitalRun} {code : Nat}

theorem mem_codes_of_covers (covers : run.covers code = true) : code ∈ run.codes := by
  simp only [CapitalRun.covers, Bool.and_eq_true, decide_eq_true_eq, beq_iff_eq] at covers
  obtain ⟨⟨least, greatest⟩, steps⟩ := covers
  refine List.mem_map.mpr ⟨(code - run.first) / run.step, List.mem_range.mpr ?_, ?_⟩
  · have := Nat.div_le_div_right (c := run.step) (Nat.sub_le_sub_right greatest run.first)
    omega
  · rw [Nat.div_mul_cancel (Nat.dvd_of_mod_eq_zero steps)]
    omega

theorem capitalCode_mono (run : CapitalRun) {a b : Nat} (le : a ≤ b) : run.capitalCode a ≤ run.capitalCode b :=
  Int.toNat_le_toNat (by omega)

theorem bounds_of_covers (covers : run.covers code = true) : run.first ≤ code ∧ code ≤ run.last := by
  simp only [CapitalRun.covers, Bool.and_eq_true, decide_eq_true_eq] at covers
  exact covers.1

theorem isPartCode_capitalCode (keeps : run.keepsPart = true) (covers : run.covers code = true) :
    isPartCode (run.capitalCode code) = isPartCode code := by
  obtain ⟨least, greatest⟩ := bounds_of_covers covers
  unfold keepsPart at keeps
  split at keeps
  · rename_i small capital isSmall isCapital
    rw [isPartCode_of_wholePart? isSmall least greatest, isPartCode_of_wholePart? isCapital
      (run.capitalCode_mono least) (run.capitalCode_mono greatest), beq_iff_eq.mp keeps]
  · exact beq_iff_eq.mp (List.all_eq_true.mp keeps code (mem_codes_of_covers covers))

theorem toNat_ofNat_capitalCode (proper : run.isProper = true) (covers : run.covers code = true) :
    (Char.ofNat (run.capitalCode code)).toNat = run.capitalCode code := by
  obtain ⟨least, greatest⟩ := bounds_of_covers covers
  have above := run.capitalCode_mono least
  have below := run.capitalCode_mono greatest
  simp only [isProper, Bool.and_eq_true, Bool.or_eq_true, decide_eq_true_eq] at proper
  have valid : (run.capitalCode code).isValidChar := by
    unfold Nat.isValidChar
    omega
  rw [Char.ofNat, dif_pos valid]
  rfl

end CapitalRun

/-! ### Capital forms -/

/-- What the capital form of a character comes from: several code points, a run that the character lies
in, or the character itself. -/
inductive CapitalOf (c : Char) : List Char → Prop
  | wide {codes : List Nat} : (c.toNat, codes) ∈ wideCapitals → CapitalOf c (codes.map Char.ofNat)
  | run {run : CapitalRun} : run ∈ capitalRuns → run.covers c.toNat = true →
      CapitalOf c [Char.ofNat (run.capitalCode c.toNat)]
  | same : (∀ run ∈ capitalRuns, run.covers c.toNat = false) → CapitalOf c [c]

theorem capitalOf_capital (c : Char) : CapitalOf c (capital c) := by
  unfold capital
  split
  · rename_i code codes found
    have isCode : code = c.toNat := by simpa using List.find?_some found
    exact .wide (isCode ▸ List.mem_of_find?_eq_some found)
  · split
    · rename_i run found
      exact .run (List.mem_of_find?_eq_some found) (by simpa using List.find?_some found)
    · rename_i none
      refine .same fun run member => ?_
      simpa using List.find?_eq_none.mp none run member

/-- Capital forms of several characters are not empty, do not begin with an underscore or a small letter
of ASCII, and are part of identifiers as their characters are. -/
theorem wideCapitals_proper : ∀ entry ∈ wideCapitals,
    (entry.2.map Char.ofNat).head?.any (fun c => c.toNat < '_'.toNat || 'z'.toNat < c.toNat) = true ∧
      (entry.2.map Char.ofNat).all isIdentifierPart = isPartCode entry.1 := by
  decide +kernel

theorem isLower_iff (c : Char) : c.isLower = true ↔ 'a'.toNat ≤ c.toNat ∧ c.toNat ≤ 'z'.toNat := by
  have range : c.isLower = (decide ('a'.val ≤ c.val) && decide (c.val ≤ 'z'.val)) := rfl
  rw [range, Bool.and_eq_true, decide_eq_true_eq, decide_eq_true_eq, UInt32.le_iff_toNat_le,
    UInt32.le_iff_toNat_le]
  rfl

theorem capital_ne_nil (c : Char) : capital c ≠ [] := by
  have form := capitalOf_capital c
  generalize capital c = cs at form
  cases form with
  | wide member =>
    intro empty
    have first := (wideCapitals_proper _ member).1
    rw [empty] at first
    cases first
  | run _ _ => simp
  | same _ => simp

theorem forall_isIdentifierPart_capital_iff (c : Char) :
    (∀ d ∈ capital c, isIdentifierPart d = true) ↔ isIdentifierPart c = true := by
  have form := capitalOf_capital c
  generalize capital c = cs at form
  cases form with
  | wide member =>
    rw [← List.all_eq_true, (wideCapitals_proper _ member).2]
    rfl
  | @run run member covers =>
    have proper := run.toNat_ofNat_capitalCode (run.isProper_of_mem member) covers
    have keeps := run.isPartCode_capitalCode (run.keepsPart_of_mem member) covers
    rw [List.forall_mem_singleton, isIdentifierPart, isIdentifierStart, proper]
    exact Eq.congr keeps rfl
  | same _ => exact List.forall_mem_singleton

/-- A capital form begins with a character beyond the underscore and the small letters of ASCII, unless
it is the character itself, and that is no small letter. -/
theorem head_capital_cases {c d : Char} (first : (capital c).head? = some d) :
    d = c ∧ c.isLower = false ∨ d.toNat < '_'.toNat ∨ 'z'.toNat < d.toNat := by
  have form := capitalOf_capital c
  generalize capital c = cs at form first
  cases form with
  | wide member =>
    have beyond := (wideCapitals_proper _ member).1
    rw [first, Option.any_some, Bool.or_eq_true, decide_eq_true_eq, decide_eq_true_eq] at beyond
    exact .inr beyond
  | @run run member covers =>
    obtain rfl := Option.some.inj first
    have proper := run.isProper_of_mem member
    obtain ⟨least, greatest⟩ := CapitalRun.bounds_of_covers covers
    have above := run.capitalCode_mono least
    have below := run.capitalCode_mono greatest
    rw [CapitalRun.toNat_ofNat_capitalCode proper covers]
    simp only [CapitalRun.isProper, Bool.and_eq_true, Bool.or_eq_true, decide_eq_true_eq] at proper
    exact .inr (proper.2.imp (Nat.lt_of_le_of_lt below) (Nat.lt_of_lt_of_le · above))
  | same uncovered =>
    obtain rfl := Option.some.inj first
    -- the small letters of ASCII are a run of their own
    have letters : ⟨'a'.toNat, 'z'.toNat, 1, -32⟩ ∈ capitalRuns := List.mem_cons_self
    have outside := uncovered _ letters
    refine .inl ⟨rfl, ?_⟩
    rw [← Bool.not_eq_true, isLower_iff]
    intro (lower : 97 ≤ c.toNat ∧ c.toNat ≤ 122)
    simp [CapitalRun.covers, Nat.mod_one] at outside
    omega

theorem isLower_head_capital {c d : Char} (first : (capital c).head? = some d) : d.isLower = false := by
  rcases head_capital_cases first with ⟨rfl, notLower⟩ | beyond
  · exact notLower
  · rw [← Bool.not_eq_true, isLower_iff]
    have divider : '_'.toNat < 'a'.toNat := by decide
    omega

end XmlRecords.Text
