import Mathlib.Data.List.Basic
import Mathlib.Data.List.TakeWhile
import XmlRecords.Codec
import XmlRecords.Xml.Char

/-!
The texts of numbers: single words, and those of integers are read back.
-/

set_option autoImplicit false
set_option relaxedAutoImplicit false

namespace XmlRecords

open Number Text Xml

/-- A text of one word: some characters that documents may hold, none of them a blank. -/
structure IsWord (text : String) : Prop where
  nonempty : text ≠ ""
  solid : ∀ c ∈ text.toList, isXmlBlank c = false
  fit : ∀ c ∈ text.toList, isXmlChar c = true

theorem isWord_of_all {text : String} (nonempty : text ≠ "")
    (all : text.toList.all (fun c => !isXmlBlank c && isXmlChar c) = true) : IsWord text := by
  simp only [List.all_eq_true, Bool.and_eq_true, Bool.not_eq_true'] at all
  exact ⟨nonempty, fun c member => (all c member).1, fun c member => (all c member).2⟩

theorem IsWord.no_return {text : String} (word : IsWord text) : '\r' ∉ text.toList :=
  fun hasReturn => absurd (word.solid _ hasReturn) (by decide)

def isNumberChar (c : Char) : Bool := c.isDigit || "-+.einfa".toList.contains c

theorem isXmlChar_of_isNumberChar {c : Char} (inNumber : isNumberChar c = true) :
    isXmlChar c = true ∧ isXmlBlank c = false := by
  simp only [isNumberChar, Bool.or_eq_true, List.contains_eq_mem, decide_eq_true_eq] at inNumber
  rcases inNumber with digit | sign
  · have code : c.val.toNat = c.toNat := rfl
    have low : 48 ≤ c.toNat ∧ c.toNat ≤ 57 := by
      simpa [Char.isDigit, UInt32.le_iff_toNat_le, code] using digit
    have other {d : Char} (outside : d.toNat < 48) : c ≠ d := by
      rintro rfl
      omega
    constructor
    · simp only [isXmlChar, Bool.or_eq_true, Bool.and_eq_true, decide_eq_true_eq]
      exact .inl (.inr ⟨by omega, by omega⟩)
    · have space : c ≠ ' ' := other (by decide)
      have tab : c ≠ '\t' := other (by decide)
      have ret : c ≠ '\r' := other (by decide)
      have feed : c ≠ '\n' := other (by decide)
      simp [isXmlBlank, space, tab, ret, feed]
  · have all : ("-+.einfa".toList.all fun c => isXmlChar c && !isXmlBlank c) = true := by decide
    simpa using List.all_eq_true.mp all c sign

theorem isNumberChar_of_mem {text : String} (all : text.toList.all isNumberChar = true) {c : Char}
    (member : c ∈ text.toList) : isNumberChar c = true := List.all_eq_true.mp all c member

theorem isWord_of_isNumberChar {text : String} (nonempty : text ≠ "")
    (all : ∀ c ∈ text.toList, isNumberChar c = true) : IsWord text :=
  ⟨nonempty, fun c member => (isXmlChar_of_isNumberChar (all c member)).2,
    fun c member => (isXmlChar_of_isNumberChar (all c member)).1⟩

/-! ### Integers -/

theorem trimBoth_eq {inClass : Char → Bool} {cs : List Char}
    (none : ∀ c ∈ cs, inClass c = false) : trimBoth inClass cs = cs := by
  have keep {cs : List Char} (none : ∀ c ∈ cs, inClass c = false) : cs.dropWhile inClass = cs := by
    cases cs with
    | nil => rfl
    | cons c cs => rw [List.dropWhile_cons_of_neg (by simp [none c List.mem_cons_self])]
  rw [trimBoth, keep none, keep fun c member => none c (List.mem_reverse.mp member),
    List.reverse_reverse]

theorem digitValue?_of_isDigit {c : Char} (digit : c.isDigit = true) :
    digitValue? c = some (c.toNat - 48) := by
  have code : c.val.toNat = c.toNat := rfl
  have bounds : 48 ≤ c.toNat ∧ c.toNat ≤ 57 := by
    simpa [Char.isDigit, UInt32.le_iff_toNat_le, code] using digit
  have inRange : '0' ≤ c ∧ c ≤ '9' := by
    simpa [Char.le_def, UInt32.le_iff_toNat_le, code] using bounds
  rw [digitValue?, if_pos (by omega), if_pos inRange]

theorem isDecimalDigit_of_isDigit {c : Char} (digit : c.isDigit = true) :
    isDecimalDigit c = true := by
  rw [isDecimalDigit, digitValue?_of_isDigit digit]
  rfl

theorem joinGroups?_of_not_mem {cs : List Char} (absent : '_' ∉ cs) (afterDigit : Bool) :
    joinGroups? afterDigit cs = some cs := by
  induction cs generalizing afterDigit with
  | nil => rfl
  | cons c cs ih =>
    have other : c ≠ '_' := by
      rintro rfl
      exact absent List.mem_cons_self
    rw [joinGroups?]
    · rw [ih fun member => absent (List.mem_cons_of_mem c member)]
      rfl
    · exact other

theorem joinGroups?_eq {cs : List Char} (digits : ∀ c ∈ cs, c.isDigit = true) (afterDigit : Bool) :
    joinGroups? afterDigit cs = some cs :=
  joinGroups?_of_not_mem (fun member => absurd (digits _ member) (by decide)) afterDigit

theorem takeDigits_eq {cs : List Char} (digits : ∀ c ∈ cs, c.isDigit = true) :
    takeDigits cs = (cs.map (·.toNat - 48), []) := by
  have all : ∀ c ∈ cs, isDecimalDigit c = true := fun c member =>
    isDecimalDigit_of_isDigit (digits c member)
  have values : cs.filterMap digitValue? = cs.map (·.toNat - 48) := by
    rw [← List.filterMap_eq_map]
    exact List.filterMap_congr fun c member => digitValue?_of_isDigit (digits c member)
  rw [takeDigits, List.takeWhile_eq_self_iff.mpr all, List.dropWhile_eq_nil_iff.mpr all, values]

theorem ofDigits_map (cs : List Char) (n : Nat) :
    (cs.map (·.toNat - 48)).foldl (fun n d => 10 * n + d) n = Nat.ofDigitChars 10 cs n := by
  rw [List.foldl_map, Nat.ofDigitChars_eq_foldl]
  rfl

theorem toList_toString_int (n : Int) :
    (toString n).toList = (if n < 0 then ['-'] else []) ++ Nat.toDigits 10 n.natAbs := by
  rw [Int.toString_eq_repr, Int.repr_eq_if]
  by_cases negative : n < 0
  · rw [if_neg (by omega), if_pos negative, String.toList_append, Nat.toList_repr]
    have magnitude : (-n).toNat = n.natAbs := by omega
    rw [magnitude]
    rfl
  · rw [if_pos (by omega), if_neg negative, Nat.toList_repr]
    have magnitude : n.toNat = n.natAbs := by omega
    rw [magnitude]
    rfl

theorem isDigit_of_mem_toDigits {n : Nat} {c : Char} (member : c ∈ Nat.toDigits 10 n) :
    c.isDigit = true := Nat.isDigit_of_mem_toDigits (by decide) (by decide) member

theorem takeSign_toString (n : Int) :
    takeSign (toString n).toList = (decide (n < 0), Nat.toDigits 10 n.natAbs) := by
  rw [toList_toString_int]
  by_cases negative : n < 0
  · simp [negative, takeSign]
  · rw [if_neg negative, List.nil_append]
    cases digits : Nat.toDigits 10 n.natAbs with
    | nil => exact absurd digits Nat.toDigits_ne_nil
    | cons c cs =>
      have digit : c.isDigit = true := isDigit_of_mem_toDigits (digits ▸ List.mem_cons_self)
      rw [takeSign]
      · simp [negative]
      · rintro _ ⟨rfl, _⟩
        exact absurd digit (by decide)
      · rintro _ ⟨rfl, _⟩
        exact absurd digit (by decide)

theorem isNumberChar_of_mem_toString {n : Int} {c : Char} (member : c ∈ (toString n).toList) :
    isNumberChar c = true := by
  rw [toList_toString_int] at member
  rcases List.mem_append.mp member with sign | digit
  · split at sign
    · rw [List.mem_singleton.mp sign]
      decide
    · cases sign
  · rw [isNumberChar, isDigit_of_mem_toDigits digit]
    rfl

theorem isBlank_of_isNumberChar {c : Char} (inNumber : isNumberChar c = true) :
    isBlank c = false := by
  simp only [isNumberChar, Bool.or_eq_true, List.contains_eq_mem, decide_eq_true_eq] at inNumber
  rcases inNumber with digit | sign
  · have code : c.val.toNat = c.toNat := rfl
    have bounds : 48 ≤ c.toNat ∧ c.toNat ≤ 57 := by
      simpa [Char.isDigit, UInt32.le_iff_toNat_le, code] using digit
    have space : c ≠ ' ' := by
      rintro rfl
      exact absurd bounds.1 (by decide)
    simp [isBlank, isInformationSeparator, space]
    omega
  · have all : ("-+.einfa".toList.all fun c => !isBlank c) = true := by decide
    simpa using List.all_eq_true.mp all c sign

theorem integerOfText_toString {n : Int}
    (few : (Nat.toDigits 10 n.natAbs).length ≤ digitLimit) :
    integerOfText (toString n) = .ok n := by
  have trimmed : trimBoth isNumberPadding (toString n).toList = (toString n).toList := by
    apply trimBoth_eq
    intro c member
    simp [isNumberPadding, isBlank_of_isNumberChar (isNumberChar_of_mem_toString member)]
  have digits : ∀ c ∈ Nat.toDigits 10 n.natAbs, c.isDigit = true := fun c => isDigit_of_mem_toDigits
  have short : ¬ digitLimit < (Nat.toDigits 10 n.natAbs).length := Nat.not_lt.mpr few
  have value : signed (decide (n < 0)) n.natAbs = n := by
    by_cases negative : n < 0
    · simp only [signed, negative, decide_true, if_true]
      omega
    · simp only [signed, negative, decide_false, Bool.false_eq_true, if_false]
      omega
  have nonempty : ((Nat.toDigits 10 n.natAbs).map (·.toNat - 48)).isEmpty = false := by simp
  rw [integerOfText, trimmed, takeSign_toString]
  simp only [joinGroups?_eq digits, takeDigits_eq digits, List.length_map, if_neg short, nonempty,
    List.isEmpty_nil, Bool.not_true, Bool.or_self, Bool.false_eq_true, if_false, ofDigits,
    ofDigits_map, Nat.ofDigitChars_ten_toDigits, value]

theorem readInteger_toString {width : IntegerWidth} {n : Int} (least : width.least ≤ n)
    (greatest : n ≤ width.greatest) : Codec.readInteger width (toString n) = .ok (.integer n) := by
  have few : (Nat.toDigits 10 n.natAbs).length ≤ digitLimit := by
    have bound : n.natAbs < 10 ^ 20 := by
      cases width <;> simp only [IntegerWidth.least, IntegerWidth.greatest] at least greatest <;> omega
    exact Nat.le_trans ((Nat.length_toDigits_le_iff (by decide) (by decide)).mpr bound) (by decide)
  have trimmed : trimBoth isBlank (toString n).toList = (toString n).toList :=
    trimBoth_eq fun c member => isBlank_of_isNumberChar (isNumberChar_of_mem_toString member)
  have looks : looksInteger (toString n) = true := by
    rw [looksInteger, trimmed, takeSign_toString]
    simp only [Bool.and_eq_true, Bool.not_eq_true', List.isEmpty_eq_false_iff, List.all_eq_true]
    exact ⟨Nat.toDigits_ne_nil, fun c member =>
      isDecimalDigit_of_isDigit (isDigit_of_mem_toDigits member)⟩
  rw [Codec.readInteger, looks, integerOf, integerOfText_toString few]
  simp [least, greatest]

theorem isWord_toString (n : Int) : IsWord (toString n) := by
  apply isWord_of_isNumberChar
  · intro empty
    have none := congrArg String.toList empty
    rw [toList_toString_int] at none
    simp at none
  · exact fun c => isNumberChar_of_mem_toString

/-! ### Floating point numbers -/

theorem isNumberChar_of_mem_repr {n : Nat} {c : Char} (member : c ∈ n.repr.toList) :
    isNumberChar c = true := by
  rw [Nat.toList_repr] at member
  rw [isNumberChar, isDigit_of_mem_toDigits member]
  rfl

theorem isNumberChar_of_mem_zeros {n : Nat} {c : Char} (member : c ∈ (zeros n).toList) :
    isNumberChar c = true := by
  rw [zeros, String.toList_ofList] at member
  rw [List.eq_of_mem_replicate member]
  decide

theorem isNumberChar_of_mem_positional {digits : String}
    (all : ∀ c ∈ digits.toList, isNumberChar c = true) (exponent : Int) {c : Char}
    (member : c ∈ (positional digits exponent).toList) : isNumberChar c = true := by
  simp only [positional] at member
  split at member
  · simp only [String.toList_append, List.mem_append] at member
    rcases member with (here | here) | here
    · exact isNumberChar_of_mem (by decide) here
    · exact isNumberChar_of_mem_zeros here
    · exact all c here
  · split at member
    · simp only [String.toList_append, List.mem_append] at member
      rcases member with (here | here) | here
      · exact all c here
      · exact isNumberChar_of_mem_zeros here
      · exact isNumberChar_of_mem (by decide) here
    · simp only [String.toList_append, String.toList_ofList, List.mem_append] at member
      rcases member with (here | here) | here
      · exact all c (List.mem_of_mem_take here)
      · exact isNumberChar_of_mem (by decide) here
      · exact all c (List.mem_of_mem_drop here)

theorem isNumberChar_of_mem_scientific {digits : String}
    (all : ∀ c ∈ digits.toList, isNumberChar c = true) (exponent : Int) {c : Char}
    (member : c ∈ (scientific digits exponent).toList) : isNumberChar c = true := by
  simp only [scientific, String.toList_append, List.mem_append] at member
  rcases member with (here | here) | here
  · split at here
    · cases here
    · rename_i d isDigits
      rw [isDigits] at all
      rw [String.toList_ofList] at here
      exact all c here
    · rename_i d rest _ isDigits
      rw [isDigits] at all
      simp only [String.toList_ofList, List.mem_cons] at here
      rcases here with rfl | rfl | here
      · exact all c List.mem_cons_self
      · decide
      · exact all c (List.mem_cons_of_mem d here)
  · split at here
    · exact isNumberChar_of_mem (by decide) here
    · exact isNumberChar_of_mem (by decide) here
  · split at here
    · rw [String.toList_append] at here
      rcases List.mem_append.mp here with zero | digit
      · exact isNumberChar_of_mem (by decide) zero
      · exact isNumberChar_of_mem_repr digit
    · exact isNumberChar_of_mem_repr here

theorem positional_ne_empty (digits : String) (exponent : Int) : positional digits exponent ≠ "" := by
  intro empty
  have none := congrArg String.toList empty
  simp only [positional] at none
  split at none
  · simp at none
  · split at none <;> simp at none

theorem scientific_ne_empty (digits : String) (exponent : Int) : scientific digits exponent ≠ "" := by
  intro empty
  simp only [scientific, String.append_eq_empty_iff] at empty
  obtain ⟨⟨_, mark⟩, _⟩ := empty
  split at mark
  · exact absurd mark (by decide)
  · exact absurd mark (by decide)

theorem isWord_text (x : Binary64) : IsWord x.text := by
  cases x with
  | nan => exact isWord_of_isNumberChar (by decide) (List.all_eq_true.mp (by decide))
  | infinity negative =>
    cases negative with
    | true => exact isWord_of_isNumberChar (by decide) (List.all_eq_true.mp (by decide))
    | false => exact isWord_of_isNumberChar (by decide) (List.all_eq_true.mp (by decide))
  | finite negative m q =>
    have digits : ∀ c ∈ (toString (shortest m q).digits).toList, isNumberChar c = true :=
      fun c => isNumberChar_of_mem_repr
    apply isWord_of_isNumberChar
    · intro empty
      simp only [Binary64.text, String.append_eq_empty_iff] at empty
      obtain ⟨_, empty⟩ := empty
      split at empty
      · exact positional_ne_empty _ _ empty
      · exact scientific_ne_empty _ _ empty
    · intro c member
      simp only [Binary64.text, String.toList_append, List.mem_append] at member
      rcases member with sign | number
      · split at sign
        · exact isNumberChar_of_mem (by decide) sign
        · cases sign
      · split at number
        · exact isNumberChar_of_mem_positional digits _ number
        · exact isNumberChar_of_mem_scientific digits _ number

end XmlRecords
