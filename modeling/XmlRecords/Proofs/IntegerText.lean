import Mathlib.Data.Nat.Digits.Defs
import XmlRecords.Proofs.CodecFaults

/-!
The texts of integers. An integer type reads exactly the numerals whose value it holds: a sign or none
and decimal digits of whatever scripts, with blanks around. The value is written again as one numeral,
whatever the spelling was.
-/

set_option autoImplicit false
set_option relaxedAutoImplicit false

namespace XmlRecords

open Number Text

inductive SignMark where
  | omitted
  | plus
  | minus
  deriving DecidableEq, Repr

namespace SignMark

def chars : SignMark → List Char
  | .omitted => []
  | .plus => ['+']
  | .minus => ['-']

def isNegative : SignMark → Bool
  | .minus => true
  | _ => false

end SignMark

/-- A spelling of an integer. The blanks around it are those of Unicode but the information separators,
and its digits, leading zeros included, are 4300 at most. -/
structure Numeral where
  before : List Char
  mark : SignMark
  digits : List Char
  after : List Char
  blank_before : ∀ c ∈ before, isNumberPadding c = true
  blank_after : ∀ c ∈ after, isNumberPadding c = true
  decimal : ∀ c ∈ digits, isDecimalDigit c = true
  nonempty : digits ≠ []
  length_le : digits.length ≤ 4300

namespace Numeral

def chars (x : Numeral) : List Char := x.before ++ (x.mark.chars ++ x.digits ++ x.after)

def text (x : Numeral) : String := String.ofList x.chars

def magnitude (x : Numeral) : Nat := Nat.ofDigits 10 (x.digits.filterMap digitValue?).reverse

def value (x : Numeral) : Int := if x.mark = .minus then -(x.magnitude : Int) else x.magnitude

end Numeral

def IntegerWidth.Holds (width : IntegerWidth) (n : Int) : Prop := width.least ≤ n ∧ n ≤ width.greatest

instance (width : IntegerWidth) (n : Int) : Decidable (width.Holds n) :=
  inferInstanceAs (Decidable (width.least ≤ n ∧ n ≤ width.greatest))

/-! ### Blanks around -/

namespace Text

variable {p : Char → Bool}

theorem exists_trimBoth_eq (p : Char → Bool) (cs : List Char) :
    ∃ before after, cs = before ++ (trimBoth p cs ++ after) ∧ (∀ c ∈ before, p c = true) ∧
      ∀ c ∈ after, p c = true := by
  have run (xs : List Char) : ∀ c ∈ xs.takeWhile p, p c = true := fun c => List.mem_takeWhile_imp
  have back : trimBoth p cs ++ ((cs.dropWhile p).reverse.takeWhile p).reverse = cs.dropWhile p := by
    rw [trimBoth, ← List.reverse_append, List.takeWhile_append_dropWhile, List.reverse_reverse]
  refine ⟨cs.takeWhile p, ((cs.dropWhile p).reverse.takeWhile p).reverse, ?_, run cs, ?_⟩
  · rw [back, List.takeWhile_append_dropWhile]
  · intro c member
    exact run _ c (List.mem_reverse.mp member)

theorem trimBoth_append {before middle after : List Char} (blankBefore : ∀ c ∈ before, p c = true)
    (blankAfter : ∀ c ∈ after, p c = true) (nonempty : middle ≠ [])
    (solid : ∀ c ∈ middle, p c = false) : trimBoth p (before ++ (middle ++ after)) = middle := by
  have keep {cs : List Char} (some : cs ≠ []) (solid : ∀ c ∈ cs, p c = false) (rest : List Char) :
      (cs ++ rest).dropWhile p = cs ++ rest := by
    obtain ⟨c, cs, rfl⟩ := List.exists_cons_of_ne_nil some
    rw [List.cons_append, List.dropWhile_cons_of_neg (by simp [solid c List.mem_cons_self])]
  have back : ∀ c ∈ middle.reverse, p c = false := fun c member =>
    solid c (List.mem_reverse.mp member)
  have ends := keep (List.reverse_ne_nil_iff.mpr nonempty) back []
  rw [List.append_nil] at ends
  rw [trimBoth, List.dropWhile_append_of_pos blankBefore, keep nonempty solid, List.reverse_append,
    List.dropWhile_append_of_pos fun c member => blankAfter c (List.mem_reverse.mp member), ends,
    List.reverse_reverse]

end Text

/-! ### Signs and digits -/

namespace Number

theorem exists_takeSign_eq (cs : List Char) :
    ∃ mark : SignMark, (takeSign cs).1 = mark.isNegative ∧ cs = mark.chars ++ (takeSign cs).2 := by
  unfold takeSign
  split
  · exact ⟨.minus, rfl, rfl⟩
  · exact ⟨.plus, rfl, rfl⟩
  · exact ⟨.omitted, rfl, rfl⟩

theorem takeSign_append (mark : SignMark) {digits : List Char} (nonempty : digits ≠ [])
    (decimal : ∀ c ∈ digits, isDecimalDigit c = true) :
    takeSign (mark.chars ++ digits) = (mark.isNegative, digits) := by
  cases mark with
  | plus => rfl
  | minus => rfl
  | omitted =>
    obtain ⟨c, cs, rfl⟩ := List.exists_cons_of_ne_nil nonempty
    have digit := decimal c List.mem_cons_self
    rw [SignMark.chars, List.nil_append, takeSign]
    · rfl
    · rintro _ ⟨rfl, _⟩
      exact absurd digit (by decide)
    · rintro _ ⟨rfl, _⟩
      exact absurd digit (by decide)

theorem ofDigits_eq (digits : List Nat) : ofDigits digits = Nat.ofDigits 10 digits.reverse := by
  rw [ofDigits, Nat.ofDigits_eq_foldr, List.foldr_reverse]
  congr
  funext n d
  exact Nat.add_comm _ _

theorem signed_isNegative (mark : SignMark) (n : Nat) :
    signed mark.isNegative n = if mark = .minus then -(n : Int) else n := by
  cases mark <;> rfl

end Number

namespace Numeral

theorem solid {x : Numeral} {p : Char → Bool} (signs : p '+' = false ∧ p '-' = false)
    (digits : ∀ c, isDecimalDigit c = true → p c = false) :
    ∀ c ∈ x.mark.chars ++ x.digits, p c = false := by
  intro c member
  rcases List.mem_append.mp member with sign | digit
  · cases mark : x.mark with
    | omitted =>
      rw [mark] at sign
      cases sign
    | plus =>
      rw [mark] at sign
      rw [List.mem_singleton.mp sign]
      exact signs.1
    | minus =>
      rw [mark] at sign
      rw [List.mem_singleton.mp sign]
      exact signs.2
  · exact digits c (x.decimal c digit)

/-- Without the blanks around it a numeral is its sign and digits, for each class of blanks between the
two that are in use. -/
theorem takeSign_trimBoth (x : Numeral) {p : Char → Bool}
    (wide : ∀ c, isNumberPadding c = true → p c = true) (narrow : ∀ c, p c = true → isBlank c = true) :
    takeSign (trimBoth p x.chars) = (x.mark.isNegative, x.digits) := by
  have digits : ∀ c, isDecimalDigit c = true → p c = false := by
    intro c digit
    rw [Bool.eq_false_iff]
    intro blank
    rw [isDecimalDigit_of_isBlank (narrow c blank)] at digit
    cases digit
  have sign {c : Char} (solid : isBlank c = false) : p c = false := by
    rw [Bool.eq_false_iff]
    intro blank
    rw [narrow c blank] at solid
    cases solid
  rw [chars, trimBoth_append (fun c member => wide c (x.blank_before c member))
    (fun c member => wide c (x.blank_after c member)) (List.append_ne_nil_of_right_ne_nil _ x.nonempty)
    (x.solid ⟨sign (by decide), sign (by decide)⟩ digits), takeSign_append _ x.nonempty x.decimal]

theorem isBlank_of_isNumberPadding {c : Char} (padding : isNumberPadding c = true) :
    isBlank c = true := by
  rw [isNumberPadding, Bool.and_eq_true] at padding
  exact padding.1

theorem looksInteger_text (x : Numeral) : looksInteger x.text = true := by
  rw [looksInteger, text, String.toList_ofList,
    x.takeSign_trimBoth (fun _ => isBlank_of_isNumberPadding) fun _ => id]
  simp only [Bool.and_eq_true, Bool.not_eq_true', List.isEmpty_eq_false_iff, List.all_eq_true]
  exact ⟨x.nonempty, x.decimal⟩

theorem integerOfText_text (x : Numeral) : integerOfText x.text = .ok x.value := by
  obtain ⟨taken, length⟩ := takeDigits_of_decimalDigits x.decimal
  have short : ¬ digitLimit < (x.digits.filterMap digitValue?).length := by
    rw [length]
    exact Nat.not_lt.mpr x.length_le
  have someDigits : (x.digits.filterMap digitValue?).isEmpty = false := by
    rw [List.isEmpty_eq_false_iff, ← List.length_pos_iff, length, List.length_pos_iff]
    exact x.nonempty
  rw [integerOfText, text, String.toList_ofList,
    x.takeSign_trimBoth (fun _ => id) fun _ => isBlank_of_isNumberPadding]
  simp only [joinGroups?_of_decimalDigits x.decimal, taken, if_neg short, someDigits,
    List.isEmpty_nil, Bool.not_true, Bool.or_self, Bool.false_eq_true, if_false, ofDigits_eq,
    signed_isNegative]
  rfl

end Numeral

/-! ### Reading -/

theorem underscore_not_mem_of_looksInteger {raw : String} (looks : looksInteger raw = true) :
    '_' ∉ raw.toList := by
  obtain ⟨before, after, split, blankBefore, blankAfter⟩ := exists_trimBoth_eq isBlank raw.toList
  obtain ⟨mark, _, spelt⟩ := exists_takeSign_eq (trimBoth isBlank raw.toList)
  simp only [looksInteger, Bool.and_eq_true, List.all_eq_true] at looks
  have solid : isBlank '_' = false := by decide
  rw [split, spelt]
  simp only [List.mem_append, not_or]
  refine ⟨fun member => ?_, ⟨?_, fun member => ?_⟩, fun member => ?_⟩
  · exact absurd (blankBefore _ member) (by simp [solid])
  · cases mark <;> decide
  · exact absurd (looks.2 _ member) (by decide)
  · exact absurd (blankAfter _ member) (by simp [solid])

/-- What looks like an integer and is one is spelled by a numeral. -/
theorem exists_numeral {raw : String} (looks : looksInteger raw = true) {n : Int}
    (converted : integerOfText raw = .ok n) : ∃ x : Numeral, raw = x.text ∧ n = x.value := by
  have noUnderscore := underscore_not_mem_of_looksInteger looks
  obtain ⟨before, after, split, blankBefore, blankAfter⟩ :=
    exists_trimBoth_eq isNumberPadding raw.toList
  obtain ⟨mark, negative, spelt⟩ := exists_takeSign_eq (trimBoth isNumberPadding raw.toList)
  rw [integerOfText] at converted
  generalize takeSign (trimBoth isNumberPadding raw.toList) = taken at converted negative spelt
  obtain ⟨_, body⟩ := taken
  obtain rfl := negative
  have joined : joinGroups? false body = some body := by
    refine joinGroups?_of_not_mem (fun member => noUnderscore ?_) false
    rw [split, spelt]
    exact List.mem_append_right _ (List.mem_append_left _ (List.mem_append_right _ member))
  simp only [joined] at converted
  split at converted
  · cases converted
  rename_i short
  split at converted
  · cases converted
  rename_i whole
  rw [Bool.or_eq_true, not_or, Bool.not_eq_true', Bool.not_eq_false, List.isEmpty_iff,
    List.isEmpty_iff] at whole
  have decimal : ∀ c ∈ body, isDecimalDigit c = true := List.dropWhile_eq_nil_iff.mp whole.2
  obtain ⟨taken, length⟩ := takeDigits_of_decimalDigits decimal
  rw [taken] at converted short whole
  have nonempty : body ≠ [] := by
    rintro rfl
    exact whole.1 rfl
  have few : body.length ≤ 4300 := length ▸ Nat.not_lt.mp short
  refine ⟨⟨before, mark, body, after, blankBefore, blankAfter, decimal, nonempty, few⟩, ?_, ?_⟩
  · rw [← String.toList_inj, split, spelt, Numeral.text, String.toList_ofList]
    rfl
  · rw [← Except.ok.inj converted, signed_isNegative, ofDigits_eq]
    rfl

namespace Codec

theorem readInteger_eq_ok_iff {width : IntegerWidth} {raw : String} {v : Value} :
    readInteger width raw = .ok v ↔
      ∃ x : Numeral, raw = x.text ∧ v = .integer x.value ∧ width.Holds x.value := by
  constructor
  · intro accepted
    unfold readInteger at accepted
    split at accepted
    · rename_i looks
      split at accepted
      · cases accepted
      · rename_i n converted
        split at accepted
        · rename_i bounded
          have isInteger : integerOfText raw = .ok n := by
            unfold integerOf at converted
            split at converted
            · rename_i m isInteger
              rw [isInteger, Except.ok.inj converted]
            · cases converted
            · cases converted
          obtain ⟨x, spelt, rfl⟩ := exists_numeral looks isInteger
          exact ⟨x, spelt, (Except.ok.inj accepted).symm, bounded⟩
        · cases accepted
    · cases accepted
  · rintro ⟨x, rfl, rfl, bounded⟩
    rw [readInteger, if_pos x.looksInteger_text, integerOf, x.integerOfText_text]
    exact if_pos bounded

/-- An integer type reads the numerals whose value it holds, to that value, and nothing else. It reads
each of its integers again from the text that it writes, and two numerals are written alike if and only
if they have the same value. -/
theorem read_integer_spec (width : IntegerWidth) :
    (∀ raw v, (Codec.integer width).read raw = .ok v ↔
      ∃ x : Numeral, raw = x.text ∧ v = .integer x.value ∧ width.Holds x.value) ∧
    (∀ n, width.Holds n → ∃ text, (Codec.integer width).write (.integer n) = .ok text ∧
      (Codec.integer width).read text = .ok (.integer n)) ∧
    ∀ x y : Numeral, width.Holds x.value → width.Holds y.value →
      (((Codec.integer width).read x.text >>= (Codec.integer width).write) =
        ((Codec.integer width).read y.text >>= (Codec.integer width).write) ↔ x.value = y.value) := by
  have again {n : Int} (bounded : width.Holds n) :
      (Codec.integer width).read (toString n) = .ok (.integer n) :=
    readInteger_toString bounded.1 bounded.2
  have rewritten (x : Numeral) (bounded : width.Holds x.value) :
      ((Codec.integer width).read x.text >>= (Codec.integer width).write) =
        .ok (toString x.value) := by
    have accepted : (Codec.integer width).read x.text = .ok (.integer x.value) :=
      readInteger_eq_ok_iff.mpr ⟨x, rfl, rfl, bounded⟩
    rw [accepted]
    rfl
  refine ⟨fun raw v => readInteger_eq_ok_iff, fun n bounded => ⟨toString n, rfl, again bounded⟩, ?_⟩
  intro x y boundedX boundedY
  rw [rewritten x boundedX, rewritten y boundedY]
  constructor
  · intro same
    have read := again boundedX
    rw [Except.ok.inj same, again boundedY] at read
    exact (Value.integer.inj (Except.ok.inj read)).symm
  · intro same
    rw [same]

/-- Seven with a sign, a leading zero and a digit of another script, between blanks. -/
def paddedSeven : Numeral where
  before := ['\u00a0', '\t']
  mark := .plus
  digits := ['0', '\u0667']
  after := ['\u3000']
  blank_before := List.all_eq_true.mp (by decide)
  blank_after := List.all_eq_true.mp (by decide)
  decimal := List.all_eq_true.mp (by decide)
  nonempty := by decide
  length_le := by decide

def plainSeven : Numeral where
  before := []
  mark := .omitted
  digits := ['7']
  after := []
  blank_before := List.all_eq_true.mp (by decide)
  blank_after := List.all_eq_true.mp (by decide)
  decimal := List.all_eq_true.mp (by decide)
  nonempty := by decide
  length_le := by decide

theorem read_integer_sevens : IntegerWidth.uint32.Holds 7 ∧ paddedSeven.value = 7 ∧
    plainSeven.value = 7 ∧ (Codec.integer .uint32).read paddedSeven.text = .ok (.integer 7) ∧
    (∃ text, (Codec.integer .uint32).write (.integer 7) = .ok text ∧
      (Codec.integer .uint32).read text = .ok (.integer 7)) ∧
    ((Codec.integer .uint32).read paddedSeven.text >>= (Codec.integer .uint32).write) =
      ((Codec.integer .uint32).read plainSeven.text >>= (Codec.integer .uint32).write) := by
  obtain ⟨accepts, again, alike⟩ := read_integer_spec .uint32
  have bounded : IntegerWidth.uint32.Holds 7 := by decide
  have padded : paddedSeven.value = 7 := by decide
  have plain : plainSeven.value = 7 := by decide
  refine ⟨bounded, padded, plain, ?_, again 7 bounded, ?_⟩
  · exact (accepts _ _).mpr ⟨paddedSeven, rfl, congrArg _ padded.symm, padded ▸ bounded⟩
  · exact (alike paddedSeven plainSeven (padded ▸ bounded) (plain ▸ bounded)).mpr
      (padded.trans plain.symm)

end Codec

end XmlRecords
