import XmlRecords.Proofs.Naming

/-!
Field names and tags are safe, and settle. Each is an identifier of ASCII that is no keyword; a field
name hides no method of records, and a tag is not one of those that enumerations keep to themselves.
A name that is safe already stays as it is, so a name that was derived is not changed by deriving again.
-/

set_option autoImplicit false
set_option relaxedAutoImplicit false

namespace XmlRecords.Identifier

/-- An identifier of ASCII letters, digits and underscores, no digit first, that is no keyword. -/
structure IsSafe (name : String) : Prop where
  start : ∃ c, name.toList.head? = some c ∧ c.isDigit = false
  word : ∀ c ∈ name.toList, c.isAlpha = true ∨ c.isDigit = true ∨ c = '_'
  free : name ∉ keywords

/-- A field name in small letters that hides no method of records. -/
structure IsSafeField (name : String) : Prop extends IsSafe name where
  small : ∀ c ∈ name.toList, c.isUpper = false
  hidesNone : name ∉ recordMethods

/-- A tag that does not begin and end with underscores, unless it is nothing but one. -/
structure IsSafeTag (name : String) : Prop extends IsSafe name where
  enclosed : name.toList.head? = some '_' → name.toList.getLast? = some '_' → name = "_"

/-! ### Characters -/

theorem isWordChar_iff {c : Char} :
    isWordChar c = true ↔ c.isAlpha = true ∨ c.isDigit = true ∨ c = '_' := by
  rw [isWordChar, Bool.or_eq_true, beq_iff_eq, Char.isAlphanum, Bool.or_eq_true, or_assoc]

theorem isSafe_of_nameable {name : String} (word : Nameable name.toList) (free : name ∉ keywords) :
    IsSafe name := by
  obtain ⟨nonempty, noDigit, chars⟩ := word
  obtain ⟨c, rest, spelt⟩ := List.exists_cons_of_ne_nil nonempty
  refine ⟨⟨c, by rw [spelt, List.head?_cons], ?_⟩, fun d member => isWordChar_iff.mp (chars d member),
    free⟩
  rwa [spelt] at noDigit

theorem IsSafe.nameable {name : String} (safe : IsSafe name) : Nameable name.toList := by
  obtain ⟨⟨c, first, noDigit⟩, word, _⟩ := safe
  obtain ⟨rest, spelt⟩ := List.head?_eq_some_iff.mp first
  refine ⟨by simp [spelt], ?_, fun d member => isWordChar_iff.mpr (word d member)⟩
  rwa [spelt, startsWithDigit]

theorem replaceForeign_eq_self {cs : List Char} (word : ∀ c ∈ cs, isWordChar c = true) :
    replaceForeign cs = cs := by
  rw [replaceForeign, List.map_congr_left fun c member => if_pos (word c member), List.map_id']

theorem splitCamel_eq_self {cs : List Char} (small : ∀ c ∈ cs, c.isUpper = false) :
    splitCamel cs = cs := by
  induction cs with
  | nil => rfl
  | cons a cs ih =>
    obtain ⟨_, below⟩ := List.forall_mem_cons.mp small
    cases cs with
    | nil => rfl
    | cons b rest =>
      have noBoundary : ((a.isLower || a.isDigit) && b.isUpper) = false := by
        rw [below b List.mem_cons_self, Bool.and_false]
      rw [splitCamel, noBoundary, if_neg Bool.false_ne_true, ih below]

theorem isUpper_iff {c : Char} : c.isUpper = true ↔ 'A'.val ≤ c.val ∧ c.val ≤ 'Z'.val :=
  decide_eq_true_iff

theorem isUpper_toLower (c : Char) : c.toLower.isUpper = false := by
  rw [Bool.eq_false_iff, Ne, isUpper_iff]
  unfold Char.toLower
  split
  · rename_i upper
    simp only [ge_iff_le, UInt32.le_iff_toNat_le] at upper ⊢
    simp only [Char.reduceVal, UInt32.reduceSub, UInt32.toNat_add, UInt32.reduceToNat] at upper ⊢
    omega
  · rename_i small
    exact small

theorem toLower_eq_self {c : Char} (small : c.isUpper = false) : c.toLower = c := by
  rw [Bool.eq_false_iff, Ne, isUpper_iff] at small
  unfold Char.toLower
  exact dif_neg small

/-! ### Field names -/

theorem mem_field {name : String} {c : Char} (member : c ∈ (field name).toList) :
    c = '_' ∨ c ∈ (replaceForeign (splitCamel name.toList)).map Char.toLower := by
  unfold field at member
  simp only at member
  generalize (replaceForeign (splitCamel name.toList)).map Char.toLower = lower at member ⊢
  have started {d : Char}
      (inside : d ∈ if lower.isEmpty || startsWithDigit lower then '_' :: lower else lower) :
      d = '_' ∨ d ∈ lower := by
    split at inside
    · exact List.mem_cons.mp inside
    · exact .inr inside
  generalize (if lower.isEmpty || startsWithDigit lower then '_' :: lower else lower) = word
    at member started
  split at member
  · rw [String.toList_append, String.toList_ofList, List.mem_append] at member
    rcases member with inside | last
    · exact started inside
    · exact .inl (List.mem_singleton.mp last)
  · rw [String.toList_ofList] at member
    exact started member

theorem field_not_mem_recordMethods (name : String) : field name ∉ recordMethods := by
  have ends : ∀ method ∈ recordMethods, method.toList.getLast? ≠ some '_' := by decide
  unfold field
  simp only
  generalize (replaceForeign (splitCamel name.toList)).map Char.toLower = lower
  generalize String.ofList (if lower.isEmpty || startsWithDigit lower then '_' :: lower else lower) =
    word
  split
  · exact fun member => ends _ member (by simp)
  · rename_i free
    simp only [Bool.or_eq_true, not_or, List.contains_iff_mem] at free
    exact free.2

theorem isSafeField_field (name : String) : IsSafeField (field name) := by
  obtain ⟨notKeyword, word⟩ := nameable_field name
  have free : field name ∉ keywords := by simpa using notKeyword
  refine ⟨isSafe_of_nameable word free, fun c member => ?_, field_not_mem_recordMethods name⟩
  rcases mem_field member with rfl | lowered
  · decide
  · obtain ⟨original, _, rfl⟩ := List.mem_map.mp lowered
    exact isUpper_toLower original

theorem field_eq_self {name : String} (safe : IsSafeField name) : field name = name := by
  obtain ⟨nonempty, noDigit, word⟩ := safe.nameable
  have lowered : name.toList.map Char.toLower = name.toList := by
    rw [List.map_congr_left fun c member => toLower_eq_self (safe.small c member), List.map_id']
  have started : (name.toList.isEmpty || startsWithDigit name.toList) = false := by
    rw [noDigit, Bool.or_false, List.isEmpty_eq_false_iff]
    exact nonempty
  have unreserved : (keywords.contains name || recordMethods.contains name) = false := by
    simpa using ⟨safe.free, safe.hidesNone⟩
  rw [field, splitCamel_eq_self safe.small, replaceForeign_eq_self word, lowered]
  simp only [started, unreserved, Bool.false_eq_true, if_false, String.ofList_toList]

theorem field_eq_self_iff {name : String} : field name = name ↔ IsSafeField name := by
  constructor
  · intro same
    have safe := isSafeField_field name
    rwa [same] at safe
  · exact field_eq_self

/-! ### Tags -/

theorem tag_eq_self {name : String} (safe : IsSafeTag name) : tag name = name := by
  obtain ⟨nonempty, noDigit, word⟩ := safe.nameable
  have started : (name.toList.isEmpty || startsWithDigit name.toList ||
      keywords.contains (String.ofList name.toList)) = false := by
    rw [noDigit, Bool.or_false, String.ofList_toList, Bool.or_eq_false_iff]
    exact ⟨List.isEmpty_eq_false_iff.mpr nonempty, by simpa using safe.free⟩
  have bare : ¬ (name.toList.head? = some '_' ∧ name.toList.getLast? = some '_' ∧
      1 < name.toList.length) := by
    rintro ⟨first, last, long⟩
    rw [safe.enclosed first last] at long
    exact absurd long (by decide)
  rw [tag, replaceForeign_eq_self word]
  simp only [started, Bool.false_eq_true, if_false]
  rw [if_neg bare, String.ofList_toList]

theorem head?_keywords : ∀ word ∈ keywords, word.toList.head? ≠ some '_' := by
  decide

theorem isSafeTag_tag (value : String) : IsSafeTag (tag value) := by
  have word := isWordChar_replaceForeign value.toList
  unfold tag
  simp only
  generalize replaceForeign value.toList = body at word
  generalize isGuarded : (body.isEmpty || startsWithDigit body ||
    keywords.contains (String.ofList body)) = guarded
  have started : Nameable (if guarded then '_' :: body else body) := by
    refine nameable_guarded word ?_
    rintro rfl
    simp only [Bool.or_eq_false_iff, List.isEmpty_eq_false_iff] at isGuarded
    exact isGuarded.1
  have free : String.ofList (if guarded then '_' :: body else body) ∉ keywords := by
    cases guarded with
    | true => exact fun member => head?_keywords _ member (by simp)
    | false => simpa using (Bool.or_eq_false_iff.mp isGuarded).2
  generalize (if guarded then '_' :: body else body) = name at started free
  split
  · rename_i enclosed
    obtain ⟨rest, rfl⟩ := List.head?_eq_some_iff.mp enclosed.1
    refine ⟨isSafe_of_nameable ?_ ?_, fun _ last => ?_⟩
    · rw [String.toList_ofList]
      exact ⟨by simp, started.2.1, List.forall_mem_append.mpr ⟨started.2.2, by simp [isWordChar]⟩⟩
    · exact fun member => head?_keywords _ member (by simp)
    · rw [String.toList_ofList, List.getLast?_concat] at last
      exact absurd (Option.some.inj last) (by decide)
  · rename_i loose
    refine ⟨isSafe_of_nameable (by rwa [String.toList_ofList]) free, fun first last => ?_⟩
    rw [String.toList_ofList] at first last
    obtain ⟨rest, rfl⟩ := List.head?_eq_some_iff.mp first
    have short : ¬ 1 < ('_' :: rest).length := fun long => loose ⟨first, last, long⟩
    cases rest with
    | nil => rfl
    | cons c rest => exact absurd (by simp) short

theorem tag_eq_self_iff {value : String} : tag value = value ↔ IsSafeTag value := by
  constructor
  · intro same
    have safe := isSafeTag_tag value
    rwa [same] at safe
  · exact tag_eq_self

/-- Field names and tags are safe, and deriving one again changes nothing. -/
theorem derived_names_settle (s : String) :
    IsSafeField (field s) ∧ field (field s) = field s ∧ IsSafeTag (tag s) ∧ tag (tag s) = tag s := by
  have safeField := isSafeField_field s
  have safeTag := isSafeTag_tag s
  exact ⟨safeField, field_eq_self_iff.mpr safeField, safeTag, tag_eq_self_iff.mpr safeTag⟩

example : (["7.0", "Class", "", "_for"].map field, ["7.", "class", "", "_for_"].map tag) =
    (["_7_0", "class_", "_", "_for"], ["_7_x", "_class", "_", "_for_x"]) := by
  decide

end XmlRecords.Identifier
