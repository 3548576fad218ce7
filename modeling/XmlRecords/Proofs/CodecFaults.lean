import XmlRecords.Proofs.CodecText

/-!
How the reading of a text fails. What looks like an integer converts to one, unless it has too many
digits: the check and the conversion differ only in information separators, which documents cannot
hold.
-/

set_option autoImplicit false
set_option relaxedAutoImplicit false

namespace XmlRecords

open Number Text Xml

/-! ### Digits and blanks -/

namespace Text

theorem isNumberPadding_of_isXmlChar {c : Char} (fit : isXmlChar c = true) :
    isNumberPadding c = isBlank c := by
  have noSeparator : isInformationSeparator c = false := by
    rw [Bool.eq_false_iff]
    intro separator
    simp only [isInformationSeparator, Bool.and_eq_true, decide_eq_true_eq] at separator
    have other {d : Char} (outside : d.toNat < 28) : c ≠ d := by
      rintro rfl
      omega
    have tab : c ≠ '\t' := other (by decide)
    have feed : c ≠ '\n' := other (by decide)
    have ret : c ≠ '\r' := other (by decide)
    simp [isXmlChar, tab, feed, ret] at fit
    omega
  rw [isNumberPadding, noSeparator, Bool.not_false, Bool.and_true]

theorem zeroDigits_apart : ∀ base ∈ zeroDigits, (base + 10 ≤ 0x85 ∨ 0xA0 < base) ∧
    (base + 10 ≤ 0x1680 ∨ 0x1680 < base) ∧ (base + 10 ≤ 0x2000 ∨ 0x3000 < base) := by
  decide

theorem isDecimalDigit_of_isBlank {c : Char} (blank : isBlank c = true) :
    isDecimalDigit c = false := by
  rw [isDecimalDigit, Option.isSome_eq_false_iff, Option.isNone_iff_eq_none, digitValue?]
  have space : c = ' ' ↔ c.toNat = 0x20 := Char.toNat_inj.symm
  simp only [isBlank, isInformationSeparator, Bool.or_eq_true, Bool.and_eq_true, decide_eq_true_eq,
    beq_iff_eq, space] at blank
  split
  · rename_i ascii
    rw [if_neg]
    rintro ⟨least, _⟩
    have least : 0x30 ≤ c.toNat := least
    omega
  · rename_i foreign
    rw [Option.map_eq_none_iff, List.find?_eq_none]
    intro base member
    simp only [Bool.and_eq_true, decide_eq_true_eq]
    have apart := zeroDigits_apart base member
    omega

theorem trimBoth_congr {p q : Char → Bool} {cs : List Char} (same : ∀ c ∈ cs, p c = q c) :
    trimBoth p cs = trimBoth q cs := by
  have front {cs : List Char} (same : ∀ c ∈ cs, p c = q c) : cs.dropWhile p = cs.dropWhile q := by
    induction cs with
    | nil => rfl
    | cons c cs ih =>
      obtain ⟨here, below⟩ := List.forall_mem_cons.mp same
      rw [List.dropWhile_cons, List.dropWhile_cons, here, ih below]
  have inside : ∀ c ∈ (cs.dropWhile q).reverse, p c = q c := fun c member =>
    same c ((List.dropWhile_sublist q).subset (List.mem_reverse.mp member))
  rw [trimBoth, trimBoth, front same, front inside]

theorem countP_trimBoth {p counted : Char → Bool} (other : ∀ c, p c = true → counted c = false)
    (cs : List Char) : (trimBoth p cs).countP counted = cs.countP counted := by
  have front (cs : List Char) : (cs.dropWhile p).countP counted = cs.countP counted := by
    induction cs with
    | nil => rfl
    | cons c cs ih =>
      rw [List.dropWhile_cons]
      split
      · rename_i dropped
        rw [ih, List.countP_cons_of_neg (by simp [other c dropped])]
      · rfl
  rw [trimBoth, List.countP_reverse, front, List.countP_reverse, front]

end Text

namespace Number

theorem countP_takeSign (cs : List Char) :
    (takeSign cs).2.countP isDecimalDigit = cs.countP isDecimalDigit := by
  unfold takeSign
  split
  · exact (List.countP_cons_of_neg (by decide)).symm
  · exact (List.countP_cons_of_neg (by decide)).symm
  · rfl

theorem joinGroups?_of_decimalDigits {cs : List Char}
    (digits : ∀ c ∈ cs, isDecimalDigit c = true) (afterDigit : Bool) :
    joinGroups? afterDigit cs = some cs :=
  joinGroups?_of_not_mem (fun member => absurd (digits _ member) (by decide)) afterDigit

theorem takeDigits_of_decimalDigits {cs : List Char}
    (digits : ∀ c ∈ cs, isDecimalDigit c = true) :
    takeDigits cs = (cs.filterMap digitValue?, []) ∧ (cs.filterMap digitValue?).length = cs.length := by
  constructor
  · rw [takeDigits, List.takeWhile_eq_self_iff.mpr digits, List.dropWhile_eq_nil_iff.mpr digits]
  · exact List.filterMap_length_eq_length.mpr digits

end Number

/-! ### Integers -/

def digitCount (raw : String) : Nat := raw.toList.countP isDecimalDigit

/-- A text that looks like an integer is one, or has too many digits. -/
theorem integerOf_of_looksInteger {raw : String} (legible : Legible raw.toList)
    (looks : looksInteger raw = true) :
    ∃ n, integerOf raw =
      if digitLimit < digitCount raw then .error (.integerTooLong (digitCount raw)) else .ok n := by
  have trimmed : trimBoth isNumberPadding raw.toList = trimBoth isBlank raw.toList :=
    trimBoth_congr fun c member => isNumberPadding_of_isXmlChar (legible c member)
  have count : digitCount raw = (takeSign (trimBoth isBlank raw.toList)).2.countP isDecimalDigit := by
    rw [digitCount, countP_takeSign, countP_trimBoth fun c => isDecimalDigit_of_isBlank]
  unfold looksInteger at looks
  rw [integerOf, integerOfText, trimmed, count]
  generalize takeSign (trimBoth isBlank raw.toList) = signed at looks
  obtain ⟨negative, body⟩ := signed
  simp only [Bool.and_eq_true, Bool.not_eq_true', List.all_eq_true] at looks
  obtain ⟨nonempty, digits⟩ := looks
  obtain ⟨taken, length⟩ := takeDigits_of_decimalDigits digits
  have someDigits : (body.filterMap digitValue?).isEmpty = false := by
    rw [List.isEmpty_eq_false_iff, ← List.length_pos_iff, length, List.length_pos_iff]
    exact List.isEmpty_eq_false_iff.mp nonempty
  simp only [joinGroups?_of_decimalDigits digits, taken, length, someDigits,
    List.countP_eq_length.mpr digits]
  by_cases long : digitLimit < body.length
  · exact ⟨0, by simp [long]⟩
  · exact ⟨Number.signed negative (ofDigits (body.filterMap digitValue?)), by simp [long]⟩

/-! ### Codecs -/

/-- No tag takes the place of what the conversion of texts needs, and none is private. -/
def Enumeration.Convertible (e : Enumeration) : Prop :=
  ∀ entry ∈ e.entries, entry.1 ≠ "from_string" ∧ entry.1 ≠ "_string_table" ∧
    isPrivate e.name entry.1 = false

theorem Enumeration.exists_ofText_iff {e : Enumeration} {raw : String} :
    (∃ tag, e.ofText raw = .ok tag) ↔ e.Convertible := by
  have shown : (e.hides "from_string" || e.hides "_string_table") = true ↔
      ∃ entry ∈ e.entries, entry.1 = "from_string" ∨ entry.1 = "_string_table" := by
    simp only [hides, Bool.or_eq_true, List.any_eq_true, beq_iff_eq, ← exists_or, ← and_or_left]
  unfold ofText
  constructor
  · rintro ⟨tag, converted⟩ entry member
    split at converted
    · cases converted
    · rename_i free
      split at converted
      · cases converted
      · rename_i noPrivate
        rw [shown] at free
        have isPublic := List.find?_eq_none.mp noPrivate entry member
        exact ⟨fun same => free ⟨entry, member, .inl same⟩,
          fun same => free ⟨entry, member, .inr same⟩, by simpa using isPublic⟩
  · intro convertible
    rw [if_neg]
    · have noPrivate : (e.entries.find? fun entry => isPrivate e.name entry.1) = none := by
        rw [List.find?_eq_none]
        intro entry member
        simp [(convertible entry member).2.2]
      rw [noPrivate]
      simp only
      split
      · exact ⟨_, rfl⟩
      · exact ⟨_, rfl⟩
    · rw [shown]
      rintro ⟨entry, member, same | same⟩
      · exact (convertible entry member).1 same
      · exact (convertible entry member).2.1 same

namespace Codec

/-- The conversions of the enumeration in a type, if there is one, can be used. -/
def Convertible : Codec → Prop
  | .enumeration e => e.Convertible
  | .list item => item.Convertible
  | _ => True

def Overlong : Codec → String → Prop
  | .integer _, raw => looksInteger raw = true ∧ digitLimit < digitCount raw
  | .list item, raw => ∃ token ∈ tokens raw, item.Overlong token
  | _, _ => False

theorem readInteger_of_overlong {width : IntegerWidth} {raw : String} (legible : Legible raw.toList)
    (overlong : (Codec.integer width).Overlong raw) :
    readInteger width raw = .error (.integerTooLong (digitCount raw)) := by
  obtain ⟨looks, long⟩ := overlong
  obtain ⟨n, converted⟩ := integerOf_of_looksInteger legible looks
  rw [if_pos long] at converted
  rw [readInteger, if_pos looks, converted]

theorem isExplained_of_readInteger {width : IntegerWidth} {raw : String} {fault : CodecFault}
    (legible : Legible raw.toList) (short : ¬ (Codec.integer width).Overlong raw)
    (failed : readInteger width raw = .error fault) : fault.isExplained = true := by
  unfold readInteger at failed
  split at failed
  · rename_i looks
    obtain ⟨n, converted⟩ := integerOf_of_looksInteger legible looks
    rw [if_neg fun long => short ⟨looks, long⟩] at converted
    rw [converted] at failed
    simp only at failed
    split at failed
    · cases failed
    · obtain rfl := Except.error.inj failed
      rfl
  · obtain rfl := Except.error.inj failed
    rfl

/-- A text that does not parse is explained, unless an integer in it has too many digits. -/
theorem isExplained_of_read {codec : Codec} (convertible : codec.Convertible) {raw : String}
    (legible : Legible raw.toList) (short : ¬ codec.Overlong raw) {fault : CodecFault}
    (failed : codec.read raw = .error fault) : fault.isExplained = true := by
  induction codec generalizing raw with
  | boolean => cases failed
  | text => cases failed
  | integer width => exact isExplained_of_readInteger legible short failed
  | real width =>
    rw [read, readReal] at failed
    split at failed
    · cases failed
    · obtain rfl := Except.error.inj failed
      rfl
  | enumeration e =>
    obtain ⟨tag, converted⟩ := (@Enumeration.exists_ofText_iff e raw).mpr convertible
    rw [read, converted] at failed
    cases failed
  | list item ih =>
    rw [read, map_eq_error_iff] at failed
    obtain ⟨token, member, failed⟩ := exists_of_mapM_eq_error failed
    exact ih convertible (isWord_of_mem_tokens legible member).fit
      (fun long => short ⟨token, member, long⟩) failed

end Codec

end XmlRecords
