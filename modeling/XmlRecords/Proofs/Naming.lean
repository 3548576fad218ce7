import XmlRecords.Identifier
import XmlRecords.Record.Type

/-!
The identifiers derived from names: every field name is a word that may name a field, and the tag
`mro` comes from no other text.
-/

set_option autoImplicit false
set_option relaxedAutoImplicit false

namespace XmlRecords.Identifier

/-! ### Field names -/

theorem toLower_eq_or_isLower (c : Char) : c.toLower = c ∨ c.toLower.isLower = true := by
  have range (d : Char) : d.isLower = (decide ('a'.val ≤ d.val) && decide (d.val ≤ 'z'.val)) := rfl
  unfold Char.toLower
  split
  · rename_i upper
    right
    simp only [range, ge_iff_le, UInt32.le_iff_toNat_le] at upper ⊢
    simp only [Char.reduceVal, UInt32.reduceSub, UInt32.toNat_add, UInt32.reduceToNat] at upper ⊢
    simp only [Bool.and_eq_true, decide_eq_true_eq]
    omega
  · exact .inl rfl

theorem isWordChar_toLower {c : Char} (word : isWordChar c = true) : isWordChar c.toLower = true := by
  rcases toLower_eq_or_isLower c with same | lower
  · rw [same, word]
  · have kinds : c.toLower.isAlphanum =
        (c.toLower.isUpper || c.toLower.isLower || c.toLower.isDigit) := rfl
    simp [isWordChar, kinds, lower]

theorem toUpper_eq_or_isUpper (c : Char) : c.toUpper = c ∨ c.toUpper.isUpper = true := by
  have range (d : Char) : d.isUpper = decide ('A'.val ≤ d.val ∧ d.val ≤ 'Z'.val) := rfl
  unfold Char.toUpper
  split
  · rename_i lower
    right
    simp only [range, UInt32.le_iff_toNat_le] at lower ⊢
    simp only [Char.reduceVal, UInt32.reduceSub, UInt32.toNat_add, UInt32.reduceToNat] at lower ⊢
    simp only [decide_eq_true_eq]
    omega
  · exact .inl rfl

theorem isWordChar_toUpper {c : Char} (word : isWordChar c = true) : isWordChar c.toUpper = true := by
  rcases toUpper_eq_or_isUpper c with same | upper
  · rw [same, word]
  · have kinds : c.toUpper.isAlphanum =
        (c.toUpper.isUpper || c.toUpper.isLower || c.toUpper.isDigit) := rfl
    simp [isWordChar, kinds, upper]

theorem isWordChar_replaceForeign (cs : List Char) : ∀ c ∈ replaceForeign cs, isWordChar c = true := by
  intro c member
  obtain ⟨original, _, rfl⟩ := List.mem_map.mp member
  split
  · assumption
  · decide

theorem isWordChar_lowered {cs : List Char} :
    ∀ c ∈ (replaceForeign cs).map Char.toLower, isWordChar c = true := by
  intro c member
  obtain ⟨replaced, inside, rfl⟩ := List.mem_map.mp member
  exact isWordChar_toLower (isWordChar_replaceForeign cs replaced inside)

theorem not_keyword_append (word : String) : keywords.contains (word ++ "_") = false := by
  have ends : ∀ k ∈ keywords, k.toList.getLast? ≠ some '_' := by decide
  rw [Bool.eq_false_iff, Ne, List.contains_iff_mem]
  intro member
  exact ends _ member (by simp)

def Nameable (cs : List Char) : Prop :=
  cs ≠ [] ∧ startsWithDigit cs = false ∧ ∀ c ∈ cs, isWordChar c = true

theorem nameable_guarded {cs : List Char} {guarded : Bool} (word : ∀ c ∈ cs, isWordChar c = true)
    (unguarded : guarded = false → cs ≠ [] ∧ startsWithDigit cs = false) :
    Nameable (if guarded then '_' :: cs else cs) := by
  split
  · exact ⟨by simp, by simp [startsWithDigit], List.forall_mem_cons.mpr ⟨by decide, word⟩⟩
  · rename_i free
    obtain ⟨nonempty, noDigit⟩ := unguarded (by simpa using free)
    exact ⟨nonempty, noDigit, word⟩

theorem Nameable.append {cs : List Char} (word : Nameable cs) : Nameable (cs ++ ['_']) := by
  obtain ⟨nonempty, noDigit, chars⟩ := word
  cases cs with
  | nil => exact absurd rfl nonempty
  | cons c cs =>
    refine ⟨by simp, noDigit, ?_⟩
    exact List.forall_mem_append.mpr ⟨chars, by simp [isWordChar]⟩

theorem isFieldName_of_nameable {name : String} (notKeyword : keywords.contains name = false)
    (word : Nameable name.toList) : isFieldName name = true := by
  obtain ⟨nonempty, noDigit, chars⟩ := word
  unfold isFieldName
  rw [notKeyword]
  cases cs : name.toList with
  | nil => exact absurd cs nonempty
  | cons c rest =>
    rw [cs] at noDigit chars
    have first := chars c List.mem_cons_self
    simp only [startsWithDigit] at noDigit
    simp only [isWordChar, Char.isAlphanum, noDigit, Bool.or_false, Bool.or_eq_true] at first
    simp only [Bool.not_false, Bool.true_and, Bool.and_eq_true, Bool.or_eq_true, List.all_eq_true]
    refine ⟨.inl first, fun d member => .inl ?_⟩
    simpa [isWordChar] using chars d (List.mem_cons_of_mem c member)

theorem nameable_field (name : String) :
    keywords.contains (field name) = false ∧ Nameable (field name).toList := by
  unfold field
  have chars := @isWordChar_lowered (splitCamel name.toList)
  generalize (replaceForeign (splitCamel name.toList)).map Char.toLower = lower at chars
  simp only
  have word : Nameable (if lower.isEmpty || startsWithDigit lower then '_' :: lower else lower) :=
    nameable_guarded chars fun free => by simpa using free
  generalize (if lower.isEmpty || startsWithDigit lower then '_' :: lower else lower) = started
    at word
  split
  · exact ⟨not_keyword_append _, by simpa using word.append⟩
  · rename_i free
    simp only [Bool.or_eq_true, not_or, Bool.not_eq_true] at free
    exact ⟨free.1, by simpa using word⟩

theorem isFieldName_field (name : String) : isFieldName (field name) = true := by
  obtain ⟨notKeyword, word⟩ := nameable_field name
  exact isFieldName_of_nameable notKeyword word

theorem mem_of_mem_trimBoth {inClass : Char → Bool} {cs : List Char} {c : Char}
    (member : c ∈ Text.trimBoth inClass cs) : c ∈ cs := by
  have inner := (List.dropWhile_sublist _).subset (List.mem_reverse.mp member)
  exact (List.dropWhile_sublist _).subset (List.mem_reverse.mp inner)

theorem isWordChar_of_mem_bare {name : String} {c : Char} (member : c ∈ bare name) :
    isWordChar c = true :=
  (nameable_field name).2.2.2 c (mem_of_mem_trimBoth member)

/-! ### Tags -/

theorem eq_of_replaceForeign {cs word : List Char} (same : replaceForeign cs = word)
    (plain : '_' ∉ word) : cs = word := by
  induction cs generalizing word with
  | nil => exact same
  | cons c cs ih =>
    obtain ⟨d, rest, rfl⟩ : ∃ d rest, word = d :: rest := ⟨_, _, same.symm⟩
    obtain ⟨here, below⟩ := List.cons.inj same
    rw [List.mem_cons, not_or] at plain
    have kept : c = d := by
      simp only at here
      split at here
      · exact here
      · exact absurd here plain.1
    rw [kept, ih below plain.2]

theorem eq_of_tag_eq {value word : String} (plain : '_' ∉ word.toList) (same : tag value = word) :
    value = word := by
  unfold tag at same
  simp only at same
  generalize isBody : replaceForeign value.toList = body at same
  have apart {cs : List Char} (given : String.ofList cs = word) : '_' ∉ cs := by
    rwa [← String.toList_ofList (l := cs), given]
  generalize isStarted : (if body.isEmpty || startsWithDigit body ||
    keywords.contains (String.ofList body) then '_' :: body else body) = started at same
  split at same
  · rename_i enclosed
    have first := List.mem_of_mem_head? (Option.mem_def.mpr enclosed.1)
    exact absurd (List.mem_append_left ['x'] first) (apart same)
  · split at isStarted
    · subst isStarted
      exact absurd List.mem_cons_self (apart same)
    · subst isStarted
      have isWord : body = word.toList := by rw [← same, String.toList_ofList]
      rw [← isBody] at isWord
      exact String.toList_inj.mp (eq_of_replaceForeign isWord plain)

end XmlRecords.Identifier
