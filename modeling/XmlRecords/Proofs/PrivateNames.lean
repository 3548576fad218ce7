import XmlRecords.Proofs.BoundNames
import XmlRecords.Proofs.ModuleStatements

/-!
Names that are private to the classes they are read in. A class of a schema has none, and of the constants
only those of enumerations whose class names leave nothing for the name of a constant can have one.
-/

set_option autoImplicit false
set_option relaxedAutoImplicit false

namespace XmlRecords.ModuleSource

open SourceText Schema
open Identifier (IsName)

variable {s : Schema} {table : CodecTable}

/-! ### Names in classes -/

theorem head?_mangle {own name : String} (hidden : isPrivate name = true) :
    (mangle own name).toList.head? = some '_' := by
  have start : name.toList.head? = some '_' := by
    have both := ((Bool.and_eq_true _ _).mp hidden).1
    obtain ⟨rest, shape⟩ := List.isPrefixOf_iff_prefix.mp both
    rw [← shape]
    rfl
  unfold mangle
  simp only
  split
  · simp
  · exact start

theorem mangle_eq_self {own name : String} (free : isPrivate name = false) : mangle own name = name := by
  simp [mangle, free]

theorem mangle_eq_self_iff {own name : String} (start : own.toList.head? ≠ some '_') (nonempty : own.toList ≠ []) :
    mangle own name = name ↔ isPrivate name = false := by
  refine ⟨fun same => ?_, mangle_eq_self⟩
  rw [Bool.eq_false_iff]
  intro hidden
  obtain ⟨c, cs, shape⟩ := List.exists_cons_of_ne_nil nonempty
  have other : c ≠ '_' := by simpa [shape] using start
  have lengths := congrArg String.length same
  simp [mangle, hidden, shape, other, String.length_append] at lengths

theorem isPrivate_eq_false {name : String} (start : name.toList.head? ≠ some '_') : isPrivate name = false := by
  rw [Bool.eq_false_iff]
  intro hidden
  obtain ⟨rest, shape⟩ := List.isPrefixOf_iff_prefix.mp ((Bool.and_eq_true _ _).mp hidden).1
  rw [← shape] at start
  exact start rfl

/-- The name of a class of the schema, which no class of the module has by itself. -/
structure IsClassName (className : String) : Prop where
  isName : IsName className
  form : ∃ name, className = Identifier.recordClass name
  free : className ∉ reservedClassNames

namespace IsClassName

variable {className : String}

theorem head?_ne (h : IsClassName className) : className.toList.head? ≠ some '_' := by
  obtain ⟨name, rfl⟩ := h.form
  exact fun first => (head_recordClass first).1 rfl

theorem isPrivate_eq (h : IsClassName className) : isPrivate className = false := isPrivate_eq_false h.head?_ne

theorem isCommon_eq (h : IsClassName className) : isCommon className = false := by
  obtain ⟨⟨⟨d, first, starts⟩, _, noKeyword⟩, ⟨name, rfl⟩, free⟩ := h
  obtain ⟨noDivider, noSmall⟩ := head_recordClass first
  rw [Bool.eq_false_iff]
  intro common
  obtain ⟨ascii, shape⟩ := (Bool.and_eq_true _ _).mp common
  have low : d.toNat < 0x80 := by simpa using List.all_eq_true.mp ascii d (List.mem_of_head? first)
  have alpha : (d.isUpper || d.isLower) = true :=
    ((isWordChar_of_isIdentifierPart low).2 starts).resolve_right noDivider
  rw [noSmall, Bool.or_false] at alpha
  -- A class name begins with a capital, so the only common words it could be are those in capitals.
  have known : Identifier.recordClass name ∈ capitalWords := by simpa [first, alpha] using shape
  have reserved : ∀ word ∈ capitalWords, word ∈ Identifier.keywords ∨ word ∈ reservedClassNames := by decide
  exact (reserved _ known).elim noKeyword free

end IsClassName

/-- A schema whose modules can be read: it is well named and sound, and no class has a reserved name. -/
structure Readable (s : Schema) (package : Label) : Prop where
  named : WellNamed s package
  sound : Sound s
  valid : s.validate = .ok ()
  free : ∀ className ∈ s.enumerations.map Enumerated.className ++ s.declared.map ComplexType.className,
    className ∉ reservedClassNames

theorem Readable.isClassName {package : Label} (h : Readable s package) {className : String}
    (member : className ∈ s.enumerations.map Enumerated.className ++ s.declared.map ComplexType.className) :
    IsClassName className := by
  refine ⟨h.named.isName member, ?_, h.free className member⟩
  rcases List.mem_append.mp member with isEnum | isType
  · obtain ⟨e, _, rfl⟩ := List.mem_map.mp isEnum
    exact ⟨_, rfl⟩
  · obtain ⟨t, _, rfl⟩ := List.mem_map.mp isType
    exact ⟨_, rfl⟩

/-! ### Names of constants -/

/-- A class name without letters or digits of ASCII, of which nothing is left in the name of a constant. -/
def IsNameless (className : String) : Prop := ∀ c ∈ className.toList, c.isAlphanum = false

instance (className : String) : Decidable (IsNameless className) :=
  List.decidableBAll (fun c : Char => c.isAlphanum = false) className.toList

theorem bare_eq_nil_iff {name : String} : Identifier.bare name = [] ↔ IsNameless name := by
  rw [← List.head?_eq_none_iff, Identifier.head?_bare, Option.map_eq_none_iff, List.find?_eq_none]
  simp only [Bool.not_eq_true]
  exact Iff.rfl

theorem head?_bare_ne {name : String} {c : Char} (first : (Identifier.bare name).head? = some c) :
    c.toUpper ≠ '_' := by
  rw [Identifier.bare, Identifier.head?_trimBoth] at first
  have solid : c ≠ '_' := by simpa using List.find?_some first
  intro upper
  rcases Identifier.toUpper_eq_or_isUpper c with same | isUpper
  · exact solid (same.symm.trans upper)
  · rw [upper] at isUpper
    cases isUpper

/-- Only the constants of nameless enumerations may be private, and not those named without a number. -/
theorem nameless_of_isPrivate {term : CodecTerm} {n : Nat}
    (hidden : isPrivate (CodecTable.candidate term.wish n) = true) :
    n ≠ 0 ∧ ∃ className, term = .enumeration className ∧ IsNameless className := by
  have begins : ∃ rest, (CodecTable.candidate term.wish n).toList = term.wish.toList ++ rest := by
    cases n with
    | zero => exact ⟨[], (List.append_nil _).symm⟩
    | succ n =>
      rw [CodecTable.candidate, CodecTable.numberedName, String.append_assoc, String.toList_append]
      exact ⟨_, rfl⟩
  obtain ⟨rest, shape⟩ := begins
  obtain ⟨more, two⟩ := List.isPrefixOf_iff_prefix.mp ((Bool.and_eq_true _ _).mp hidden).1
  rw [shape] at two
  cases term with
  | list item =>
    rw [CodecTerm.wish, String.toList_append] at two
    cases two
  | enumeration className =>
    have wish : (CodecTerm.enumeration className).wish.toList =
        '_' :: (Identifier.bare className).map Char.toUpper := String.toList_ofList
    rw [wish] at two
    -- After its underscore the name goes on with what is left of the class name, in capitals and digits.
    cases isBare : Identifier.bare className with
    | nil =>
      refine ⟨?_, className, rfl, bare_eq_nil_iff.mp isBare⟩
      rintro rfl
      have single : (CodecTerm.enumeration className).wish = "_" := by rw [CodecTerm.wish, isBare]; rfl
      rw [CodecTable.candidate, single] at hidden
      revert hidden
      decide
    | cons c cs =>
      rw [isBare] at two
      obtain ⟨second, _⟩ := List.cons.inj (List.cons.inj two).2
      exact absurd second.symm (head?_bare_ne (by rw [isBare, List.head?_cons]))

theorem nameless_of_underscore (grown : table.Grown) {term : CodecTerm}
    (member : ("_", term) ∈ table.definitions) :
    ∃ className, term = .enumeration className ∧ IsNameless className := by
  obtain ⟨n, same, _⟩ := grown.exists_candidate member
  have underscore : "_".toList = ['_'] := rfl
  have characters := congrArg String.toList same
  rw [underscore] at characters
  have start : ∃ cs, term.wish.toList = '_' :: cs := by
    cases term with
    | enumeration className => exact ⟨_, String.toList_ofList⟩
    | list item => exact ⟨_, by rw [CodecTerm.wish, String.toList_append]; rfl⟩
  obtain ⟨cs, wish⟩ := start
  cases n with
  | succ n =>
    rw [CodecTable.candidate, CodecTable.numberedName, String.append_assoc, String.toList_append, wish] at characters
    have lengths := congrArg List.length characters
    simp at lengths
  | zero =>
    rw [CodecTable.candidate] at characters
    cases term with
    | enumeration className =>
      rw [CodecTerm.wish, String.toList_ofList] at characters
      obtain ⟨_, nothing⟩ := List.cons.inj characters
      exact ⟨className, rfl, bare_eq_nil_iff.mp (List.map_eq_nil_iff.mp nothing.symm)⟩
    | list item =>
      rw [CodecTerm.wish, String.toList_append] at characters
      have lengths := congrArg List.length characters
      simp at lengths

theorem exists_nameless (grown : table.Grown) {name : String} {term : CodecTerm}
    (member : (name, term) ∈ table.definitions) (hidden : isPrivate name = true) :
    ∃ className other, className ≠ other ∧ IsNameless className ∧ IsNameless other ∧
      (∃ constant, (constant, CodecTerm.enumeration className) ∈ table.definitions) ∧
      ∃ constant, (constant, CodecTerm.enumeration other) ∈ table.definitions := by
  obtain ⟨n, rfl, taken⟩ := grown.exists_candidate member
  obtain ⟨numbered, className, rfl, nameless⟩ := nameless_of_isPrivate hidden
  obtain ⟨other, differs, first⟩ := taken 0 (Nat.pos_of_ne_zero numbered)
  have single : (CodecTerm.enumeration className).wish = "_" := by
    rw [CodecTerm.wish, bare_eq_nil_iff.mpr nameless]
    rfl
  rw [CodecTable.candidate, single] at first
  obtain ⟨otherName, rfl, nameless'⟩ := nameless_of_underscore grown first
  exact ⟨className, otherName, fun same => differs (by rw [same]), nameless, nameless', ⟨_, member⟩, ⟨_, first⟩⟩

/-- At most one of the enumerations whose tags fields hold is nameless. -/
def NamelessApart (s : Schema) : Prop := ∀ t ∈ s.declared, ∀ u ∈ s.declared, ∀ className other,
  HoldsTagsOf t className → HoldsTagsOf u other → IsNameless className → IsNameless other → className = other

theorem namelessApart_of_enumerations (closed : s.Closed)
    (apart : ∀ className ∈ s.enumerations.map Enumerated.className,
      ∀ other ∈ s.enumerations.map Enumerated.className,
        IsNameless className → IsNameless other → className = other) : NamelessApart s :=
  fun _ declared _ declared' className other holds holds' =>
    apart className (mem_enumClasses_of_holds closed declared holds) other
      (mem_enumClasses_of_holds closed declared' holds')

end XmlRecords.ModuleSource
