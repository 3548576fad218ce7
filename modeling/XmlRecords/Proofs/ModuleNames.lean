import Mathlib.Data.List.TakeWhile
import XmlRecords.Proofs.CapitalForms
import XmlRecords.Proofs.EmittedModules
import XmlRecords.Proofs.Naming
import XmlRecords.Proofs.Pieces

/-!
The names of generated modules and of the classes in them, and when they are identifiers: class names
keep the characters of the names that they come from, and module names may begin with a digit or be a
keyword, since the underscores that guard field names against both are taken away.
-/

set_option autoImplicit false
set_option relaxedAutoImplicit false

namespace XmlRecords

open Schema Text

namespace Identifier

/-- Holds of an identifier that is not a keyword. -/
structure IsName (name : String) : Prop where
  start : ∃ c, name.toList.head? = some c ∧ isIdentifierStart c = true
  parts : ∀ c ∈ name.toList, isIdentifierPart c = true
  free : name ∉ keywords

/-- Holds of the names of types and enumerations whose class name is an identifier: of their characters
all but the dividers may be part of one, the first of them may begin one when it is capitalized, and the
name does not spell a keyword with a capital. -/
structure NamesClass (name : String) : Prop where
  start : ∃ c d, name.toList.find? (!isClassDivider ·) = some c ∧ (capital c).head? = some d ∧
    isIdentifierStart d = true
  parts : ∀ c ∈ name.toList, isClassDivider c = true ∨ isIdentifierPart c = true
  free : recordClass name ∉ ["False", "None", "True"]

/-- Holds of the names of schemas whose module name is an identifier: the first letter or digit of ASCII,
if there is one, is a letter, and no keyword is left of the field name. -/
structure NamesModule (name : String) : Prop where
  start : ∀ c, name.toList.find? Char.isAlphanum = some c → c.isDigit = false
  free : String.ofList (bare name) ∉ keywords

theorem isName_iff (name : String) : IsName name ↔
    name.toList.head?.any isIdentifierStart = true ∧
      name.toList.all isIdentifierPart = true ∧ name ∉ keywords := by
  rw [Option.any_eq_true, List.all_eq_true]
  exact ⟨fun ⟨start, parts, free⟩ => ⟨start, parts, free⟩,
    fun ⟨start, parts, free⟩ => ⟨start, parts, free⟩⟩

instance (name : String) : Decidable (IsName name) := decidable_of_iff' _ (isName_iff name)

theorem namesClass_iff (name : String) : NamesClass name ↔
    (name.toList.find? (!isClassDivider ·)).any
      (fun c => (capital c).head?.any isIdentifierStart) = true ∧
      name.toList.all (fun c => isClassDivider c || isIdentifierPart c) = true ∧
      recordClass name ∉ ["False", "None", "True"] := by
  simp only [Option.any_eq_true, List.all_eq_true, Bool.or_eq_true]
  constructor
  · rintro ⟨⟨c, d, found, first, starts⟩, parts, free⟩
    exact ⟨⟨c, found, d, first, starts⟩, parts, free⟩
  · rintro ⟨⟨c, found, d, first, starts⟩, parts, free⟩
    exact ⟨⟨c, d, found, first, starts⟩, parts, free⟩

instance (name : String) : Decidable (NamesClass name) := decidable_of_iff' _ (namesClass_iff name)

theorem namesModule_iff (name : String) : NamesModule name ↔
    (name.toList.find? Char.isAlphanum).all (!·.isDigit) = true ∧
      String.ofList (bare name) ∉ keywords := by
  rw [Option.all_eq_true]
  simp only [Bool.not_eq_true']
  exact ⟨fun ⟨start, free⟩ => ⟨start, free⟩, fun ⟨start, free⟩ => ⟨start, free⟩⟩

instance (name : String) : Decidable (NamesModule name) := decidable_of_iff' _ (namesModule_iff name)

/-! ### Class names -/

theorem forall_isIdentifierPart_recordClass_iff (name : String) :
    (∀ c ∈ (recordClass name).toList, isIdentifierPart c = true) ↔
      ∀ c ∈ name.toList, isClassDivider c = true ∨ isIdentifierPart c = true := by
  have piece (cs : List Char) : (∀ c ∈ capitalized cs, isIdentifierPart c = true) ↔
      ∀ c ∈ cs, isIdentifierPart c = true := by
    cases cs with
    | nil => exact Iff.rfl
    | cons c cs =>
      rw [capitalized, List.forall_mem_append, List.forall_mem_cons,
        forall_isIdentifierPart_capital_iff]
  have kept : (∀ c ∈ (pieces isClassDivider name.toList).flatten, isIdentifierPart c = true) ↔
      ∀ c ∈ name.toList, isClassDivider c = true ∨ isIdentifierPart c = true := by
    rw [(laidOut_pieces isClassDivider name.toList).flatten_eq]
    simp only [List.mem_filter, Bool.not_eq_true', and_imp, ← Bool.not_eq_true, or_iff_not_imp_left]
  rw [← kept, recordClass, String.toList_ofList]
  simp only [List.forall_mem_flatMap, List.forall_mem_flatten, piece]

theorem head?_recordClass (name : String) : (recordClass name).toList.head? =
    (name.toList.find? (!isClassDivider ·)).bind fun c => (capital c).head? := by
  have laid := laidOut_pieces isClassDivider name.toList
  have whole := laid.flatten_eq
  rw [recordClass, String.toList_ofList, ← List.head?_filter, ← whole]
  have nonempty : ∀ piece ∈ pieces isClassDivider name.toList, piece ≠ [] :=
    fun piece member => (laid.isPiece piece member).1
  cases parts : pieces isClassDivider name.toList with
  | nil => rfl
  | cons piece rest =>
    obtain ⟨c, cs, rfl⟩ := List.exists_cons_of_ne_nil (nonempty piece (parts ▸ List.mem_cons_self))
    obtain ⟨d, ds, form⟩ := List.exists_cons_of_ne_nil (capital_ne_nil c)
    simp [capitalized, form]

theorem capital_keywords : ∀ word ∈ keywords, word ∉ ["False", "None", "True"] →
    word.toList.head?.any Char.isLower = true := by
  decide

theorem isName_recordClass_iff (name : String) : IsName (recordClass name) ↔ NamesClass name := by
  constructor
  · rintro ⟨⟨d, first, starts⟩, parts, free⟩
    rw [head?_recordClass] at first
    obtain ⟨c, found, form⟩ := Option.bind_eq_some_iff.mp first
    refine ⟨⟨c, d, found, form, starts⟩, (forall_isIdentifierPart_recordClass_iff name).mp parts, ?_⟩
    have among : ∀ word ∈ ["False", "None", "True"], word ∈ keywords := by decide
    exact fun spelt => free (among _ spelt)
  · rintro ⟨⟨c, d, found, form, starts⟩, parts, free⟩
    have first : (recordClass name).toList.head? = some d := by
      rw [head?_recordClass, found, Option.bind_some, form]
    refine ⟨⟨d, first, starts⟩, (forall_isIdentifierPart_recordClass_iff name).mpr parts, ?_⟩
    intro isKeyword
    have lower := capital_keywords _ isKeyword free
    rw [first, Option.any_some, isLower_head_capital form] at lower
    cases lower

/-! ### Module names -/

theorem head?_trimBoth (inClass : Char → Bool) (cs : List Char) :
    (trimBoth inClass cs).head? = cs.find? (!inClass ·) := by
  rw [trimBoth, List.find?_not_eq_head?_dropWhile]
  have solid := List.head?_dropWhile_not inClass cs
  cases trimmed : cs.dropWhile inClass with
  | nil => rfl
  | cons d ds =>
    rw [trimmed, List.head?_cons] at solid
    have kept : ((d :: ds).reverse.dropWhile inClass) = ds.reverse.dropWhile inClass ++ [d] := by
      rw [List.reverse_cons, List.dropWhile_append]
      split
      · rename_i none
        rw [List.isEmpty_iff.mp none, List.dropWhile_cons_of_neg (by simp [solid]), List.nil_append]
      · rfl
    rw [kept, List.reverse_append, List.reverse_singleton, List.singleton_append, List.head?_cons,
      List.head?_cons]

theorem find?_splitCamel (cs : List Char) :
    (splitCamel cs).find? Char.isAlphanum = cs.find? Char.isAlphanum := by
  have noDivider : ('_').isAlphanum = false := by decide
  fun_induction splitCamel cs with
  | case1 a b rest boundary ih =>
    rw [List.find?_cons, List.find?_cons, noDivider, ih]
    exact List.find?_cons.symm
  | case2 a b rest boundary ih =>
    rw [List.find?_cons, ih]
    exact List.find?_cons.symm
  | case3 cs => rfl

theorem isLower_ne_divider {c : Char} (lower : c.isLower = true) : c ≠ '_' := by
  rintro rfl
  cases lower

theorem isDigit_toLower (c : Char) : c.toLower.isDigit = c.isDigit := by
  unfold Char.toLower
  split
  · rename_i upper
    simp only [Char.isDigit, ge_iff_le, UInt32.le_iff_toNat_le, UInt32.toNat_add] at upper ⊢
    simp only [Char.reduceVal, UInt32.reduceSub, UInt32.reduceToNat] at upper ⊢
    rw [Bool.eq_iff_iff]
    simp only [Bool.and_eq_true, decide_eq_true_eq]
    omega
  · rfl

/-- In field names only the letters and digits of ASCII become something other than underscores. -/
theorem toLower_replaced_ne (c : Char) :
    ((if isWordChar c then c else '_').toLower != '_') = c.isAlphanum := by
  cases alphanum : c.isAlphanum with
  | true =>
    have word : isWordChar c = true := by rw [isWordChar, alphanum, Bool.true_or]
    rw [if_pos word, bne_iff_ne]
    rcases toLower_eq_or_isLower c with same | lower
    · rw [same]
      rintro rfl
      cases alphanum
    · exact isLower_ne_divider lower
  | false =>
    have replaced : (if isWordChar c then c else '_') = '_' := by
      rw [isWordChar, alphanum, Bool.false_or]
      split
      · rename_i divider
        exact beq_iff_eq.mp divider
      · rfl
    rw [replaced]
    decide

theorem head?_bare (name : String) :
    (bare name).head? = (name.toList.find? Char.isAlphanum).map Char.toLower := by
  have inField : (field name).toList.find? (!· == '_') =
      ((replaceForeign (splitCamel name.toList)).map Char.toLower).find? (!· == '_') := by
    unfold field
    simp only
    split <;> split <;> simp [List.find?_append]
  have replaced : (fun c => !((if isWordChar c then c else '_').toLower == '_')) = Char.isAlphanum :=
    funext toLower_replaced_ne
  rw [bare, head?_trimBoth, inField, replaceForeign, List.map_map, List.find?_map]
  show Option.map _ (List.find? (fun c => !((if isWordChar c then c else '_').toLower == '_')) _) = _
  rw [replaced, find?_splitCamel]
  cases found : name.toList.find? Char.isAlphanum with
  | none => rfl
  | some c =>
    have word : isWordChar c = true := by rw [isWordChar, List.find?_some found, Bool.true_or]
    simp [word]

theorem toNat_lt_of_isWordChar {c : Char} (word : isWordChar c = true) : c.toNat < 0x80 := by
  rcases Bool.or_eq_true _ _ ▸ word with alphanum | divider
  · have ranges : c.isAlphanum =
        ((decide ('A'.val ≤ c.val ∧ c.val ≤ 'Z'.val) || c.isLower) ||
          (decide ('0'.val ≤ c.val) && decide (c.val ≤ '9'.val))) := rfl
    simp only [ranges, Bool.or_eq_true, Bool.and_eq_true, decide_eq_true_eq, isLower_iff,
      UInt32.le_iff_toNat_le, Char.reduceVal, UInt32.reduceToNat, Char.reduceToNat] at alphanum
    have : c.toNat = c.val.toNat := rfl
    omega
  · rw [beq_iff_eq.mp divider]
    decide

theorem isIdentifierPart_of_isWordChar {c : Char} (word : isWordChar c = true) :
    isIdentifierPart c = true ∧ (isIdentifierStart c = true ↔ c.isDigit = false) := by
  have each : ∀ code < 0x80, isWordChar (Char.ofNat code) = true →
      isIdentifierPart (Char.ofNat code) = true ∧
        (isIdentifierStart (Char.ofNat code) = true ↔ (Char.ofNat code).isDigit = false) := by
    decide +kernel
  have own := each c.toNat (toNat_lt_of_isWordChar word)
  rw [Char.ofNat_toNat] at own
  exact own word

/-- A module name is an identifier if and only if the name that it comes from is fit for it. -/
theorem isName_module_iff (name : String) : IsName (Identifier.module name) ↔ NamesModule name := by
  have word : ∀ c ∈ bare name, isWordChar c = true := fun c => isWordChar_of_mem_bare
  have begins := head?_bare name
  unfold Identifier.module
  cases isBare : bare name with
  | nil =>
    rw [isBare, List.head?_nil, eq_comm, Option.map_eq_none_iff] at begins
    have schema : IsName "schema" := by decide +kernel
    refine iff_of_true schema ⟨?_, ?_⟩
    · intro c found
      rw [begins] at found
      cases found
    · rw [isBare]
      decide
  | cons c cs =>
    rw [isBare] at begins word
    obtain ⟨first, found, lowered⟩ := Option.map_eq_some_iff.mp begins.symm
    have starts := (isIdentifierPart_of_isWordChar (word c List.mem_cons_self)).2
    have digit : first.isDigit = c.isDigit := by rw [← lowered, isDigit_toLower]
    rw [List.isEmpty_cons, if_neg Bool.false_ne_true, ← isBare]
    constructor
    · rintro ⟨⟨d, isFirst, canStart⟩, _, free⟩
      rw [String.toList_ofList, isBare, List.head?_cons] at isFirst
      obtain rfl := Option.some.inj isFirst
      refine ⟨fun letter isLetter => ?_, free⟩
      obtain rfl := Option.some.inj (found.symm.trans isLetter)
      exact digit.trans (starts.mp canStart)
    · rintro ⟨noDigit, free⟩
      refine ⟨⟨c, ?_, starts.mpr (digit.symm.trans (noDigit first found))⟩, ?_, free⟩
      · rw [String.toList_ofList, isBare, List.head?_cons]
      · intro d member
        rw [String.toList_ofList, isBare] at member
        exact (isIdentifierPart_of_isWordChar (word d member)).1

end Identifier

open Identifier

namespace ModuleSource

/-! ### The names of a schema's modules -/

def Declaration.className? : Declaration → Option String
  | .recordClass c => some c.className
  | .enumClass c => some c.className
  | _ => none

def classNames (m : ModuleSource) : List String := m.declarations.filterMap Declaration.className?

variable {s : Schema}

theorem filterMap_className? {α : Type} {declare : α → Declaration} {name : α → String}
    (named : ∀ c, (declare c).className? = some (name c)) (classes : List α) :
    (classes.map declare).filterMap Declaration.className? = classes.map name := by
  rw [List.filterMap_map, ← List.filterMap_eq_map']
  exact List.filterMap_congr fun c _ => named c

theorem classNames_enumsModule {enums : ModuleSource} (made : enumsModule s = .ok enums) :
    enums.classNames = s.enumerations.map fun e => recordClass e.name.shown := by
  obtain ⟨classes, ofEnumerations, declared⟩ := declarations_enumsModule made
  have named : s.enumerations.map (fun e => recordClass e.name.shown) =
      classes.map (·.className) :=
    map_eq_of_forall₂ ofEnumerations fun e c ofEnumeration => ofEnumeration.className
  rw [named, classNames, declared, List.filterMap_cons_none rfl]
  exact filterMap_className? (fun _ => rfl) classes

/-- The import of the enumerations names their module, and each class statement a type in order. -/
theorem names_of_recordsModule {package : Label} {records : ModuleSource}
    (made : recordsModule s package = .ok records) :
    ∃ name types, s.name = .text name ∧ s.dependencyOrder = .ok types ∧
      (∀ path enums, Declaration.enumImports path enums ∈ records.declarations →
        path = modulePath package (Identifier.module name ++ "_enums")) ∧
      records.classNames = types.map fun t => recordClass t.qualifiedName.shown := by
  obtain ⟨name, root, types, classes, table, enums, isName, _, ordered, isClasses, _, declared⟩ :=
    declarations_recordsModule made
  obtain ⟨_, ofTypes, _⟩ := recordClassesOf_spec .empty isClasses
  refine ⟨name, types, isName, ordered, fun path names member => ?_, ?_⟩
  · have own : Declaration.enumImports path names ∈
        enumImportsOf (modulePath package (Identifier.module name ++ "_enums")) enums := by
      simpa [declared, standardImports, constantsOf] using member
    unfold enumImportsOf at own
    split at own
    · cases own
    · exact (Declaration.enumImports.inj (List.mem_singleton.mp own)).1
  · have named : types.map (fun t => recordClass t.qualifiedName.shown) =
        classes.map (·.className) :=
      map_eq_of_forall₂ ofTypes fun t c ofType => ofType.className
    have imports (path : String) :
        (enumImportsOf path enums).filterMap Declaration.className? = [] := by
      unfold enumImportsOf
      split <;> rfl
    have constants : (constantsOf table).filterMap Declaration.className? = [] := by
      rw [constantsOf, List.filterMap_map]
      exact List.filterMap_eq_nil_iff.mpr fun _ _ => rfl
    have standard : (standardImports.flatMap (·.declarations)).filterMap
        Declaration.className? = [] := rfl
    have functions : ((documentFunctions root).map Declaration.function).filterMap
        Declaration.className? = [] := rfl
    rw [named, classNames, declared, List.filterMap_append, List.filterMap_append,
      List.filterMap_cons_none rfl, List.filterMap_append, List.filterMap_append, standard, imports,
      constants, functions, filterMap_className? fun _ => rfl, List.nil_append, List.nil_append,
      List.nil_append, List.append_nil]

/-- The names of the classes in a schema's modules are identifiers if and only if those of its
enumerations and types are fit for class names, and the name of the modules is an identifier if and only
if the schema's is fit for it. -/
theorem isName_classNames_iff {package : Option String} {files : List File}
    (generated : generate s package = .ok files) :
    ∃ (name : String) (enums records : ModuleSource) (types : List ComplexType),
      s.name = .text name ∧
      files = [⟨Identifier.module name ++ "_enums.py", enums.print⟩,
        ⟨Identifier.module name ++ ".py", records.print⟩] ∧
      (∀ path names, Declaration.enumImports path names ∈ records.declarations →
        path = modulePath ((package.map Json.text).getD s.package)
          (Identifier.module name ++ "_enums")) ∧
      s.dependencyOrder = .ok types ∧
      ((∀ className ∈ enums.classNames ++ records.classNames, IsName className) ↔
        ∀ label ∈ s.enumerations.map (·.name) ++ types.map (·.qualifiedName),
          NamesClass label.shown) ∧
      (IsName (Identifier.module name) ↔ NamesModule name) := by
  obtain ⟨_, name, enums, records, isName, isEnums, isRecords, isFiles⟩ :=
    generate_eq_ok_iff.mp generated
  obtain ⟨_, types, own, ordered, imports, inRecords⟩ := names_of_recordsModule isRecords
  obtain rfl := Json.text.inj (isName.symm.trans own)
  refine ⟨name, enums, records, types, isName, isFiles, imports, ordered, ?_, isName_module_iff name⟩
  rw [classNames_enumsModule isEnums, inRecords]
  simp only [List.forall_mem_append, List.forall_mem_map, isName_recordClass_iff]

theorem isName_classNames_shelf : ∃ files, generate shelfSchema none = .ok files ∧
    ∃ (enums records : ModuleSource),
      files = [⟨"shelf_enums.py", enums.print⟩, ⟨"shelf.py", records.print⟩] ∧
      (∀ className ∈ enums.classNames ++ records.classNames, IsName className) ∧ IsName "shelf" := by
  obtain ⟨files, generated⟩ := exists_generate_shelf
  obtain ⟨name, enums, records, types, isName, isFiles, _, ordered, classes, isModule⟩ :=
    isName_classNames_iff generated
  obtain rfl := Json.text.inj isName
  have isTypes : types = shelfSchema.declared := Except.ok.inj (ordered.symm.trans rfl)
  refine ⟨files, generated, enums, records, isFiles, classes.mpr ?_, isModule.mpr ?_⟩
  · rw [isTypes]
    decide +kernel
  · decide +kernel

def emptyDefinition (name type : String) : Json :=
  .object [
    ("name", .text name),
    ("types", .array [.object [("name", .text type)]]),
    ("root", .object [("element", .text "sole"), ("type", .text type)])]

def emptySchema (name type : String) : Schema := {
  name := .text name
  rootElement := .text "sole"
  rootType := 0
  declared := [⟨0, .text type, .text type, none, [], []⟩]
  undeclared := []
  enumerations := []
  package := .null }

/-- The class of a type whose name begins with a digit is not named by an identifier, and the modules of
a schema whose name is a keyword are not. -/
theorem not_isName_digit_and_keyword :
    (load (emptyDefinition "sole" "3d") (.text "sole") = .ok (emptySchema "sole" "3d") ∧
      ∃ enums records : ModuleSource, generate (emptySchema "sole" "3d") none =
          .ok [⟨"sole_enums.py", enums.print⟩, ⟨"sole.py", records.print⟩] ∧
        "3d" ∈ records.classNames ∧ ¬ IsName "3d") ∧
    load (emptyDefinition "class" "Sole") (.text "class") = .ok (emptySchema "class" "Sole") ∧
      ∃ enums records : ModuleSource, generate (emptySchema "class" "Sole") none =
          .ok [⟨"class_enums.py", enums.print⟩, ⟨"class.py", records.print⟩] ∧ ¬ IsName "class" := by
  refine ⟨⟨rfl, ?_⟩, rfl, ?_⟩
  · obtain ⟨enums, isEnums⟩ : ∃ enums, enumsModule (emptySchema "sole" "3d") = .ok enums := ⟨_, rfl⟩
    obtain ⟨records, isRecords⟩ : ∃ records,
      recordsModule (emptySchema "sole" "3d") .null = .ok records := ⟨_, rfl⟩
    obtain ⟨_, types, _, ordered, _, named⟩ := names_of_recordsModule isRecords
    have isTypes : types = (emptySchema "sole" "3d").declared :=
      Except.ok.inj (ordered.symm.trans rfl)
    refine ⟨enums, records, ?_, ?_, by decide +kernel⟩
    · exact generate_eq_ok_iff.mpr ⟨rfl, "sole", enums, records, rfl, isEnums, isRecords, rfl⟩
    · rw [named, isTypes]
      decide +kernel
  · obtain ⟨enums, isEnums⟩ : ∃ enums, enumsModule (emptySchema "class" "Sole") = .ok enums := ⟨_, rfl⟩
    obtain ⟨records, isRecords⟩ : ∃ records,
      recordsModule (emptySchema "class" "Sole") .null = .ok records := ⟨_, rfl⟩
    refine ⟨enums, records, ?_, by decide +kernel⟩
    exact generate_eq_ok_iff.mpr ⟨rfl, "class", enums, records, rfl, isEnums, isRecords, rfl⟩

end ModuleSource

end XmlRecords
