import XmlRecords.Proofs.DeclarationStatements
import XmlRecords.Proofs.SafeNames

/-!
The modules generated for a schema as they are read: the statements of each in order, as long as the names
in the schema can be written in source text.
-/

set_option autoImplicit false
set_option relaxedAutoImplicit false

namespace XmlRecords.SourceText

open Text

/-! ### Words -/

theorem isWordChar_of_isIdentifierPart {c : Char} (low : c.toNat < 0x80) :
    (isIdentifierPart c = true → Identifier.isWordChar c = true) ∧
      (isIdentifierStart c = true → c.isAlpha = true ∨ c = '_') := by
  have ascii : ∀ code < 0x80,
      (isIdentifierPart (Char.ofNat code) = true → Identifier.isWordChar (Char.ofNat code) = true) ∧
        (isIdentifierStart (Char.ofNat code) = true →
          (Char.ofNat code).isAlpha = true ∨ Char.ofNat code = '_') := by
    decide
  have own := ascii c.toNat low
  rwa [Char.ofNat_toNat] at own

theorem isWordText_of_isName {name : String} (isName : Identifier.IsName name) : IsWordText name := by
  obtain ⟨⟨c, first, starts⟩, parts, _⟩ := isName
  constructor
  · obtain ⟨cs, shape⟩ := List.head?_eq_some_iff.mp first
    rw [shape, isWord]
    by_cases low : c.toNat < 0x80
    · rcases (isWordChar_of_isIdentifierPart low).2 starts with alpha | underscore
      · simp [alpha]
      · simp [underscore]
    · simp [Nat.le_of_not_lt low, starts]
  · intro d member
    rw [isWordPart]
    by_cases low : d.toNat < 0x80
    · rw [(isWordChar_of_isIdentifierPart low).1 (parts d member), Bool.true_or]
    · simp [Nat.le_of_not_lt low, parts d member]

theorem isSmallWord_of_nameable {name : String} (nameable : Identifier.Nameable name.toList)
    (small : ∀ c ∈ name.toList, c.isUpper = false) : IsSmallWord name := by
  obtain ⟨nonempty, noDigit, word⟩ := nameable
  obtain ⟨c, cs, shape⟩ := List.exists_cons_of_ne_nil nonempty
  refine ⟨⟨c, by rw [shape, List.head?_cons], ?_⟩, word⟩
  have own := word c (shape ▸ List.mem_cons_self)
  have noCapital := small c (shape ▸ List.mem_cons_self)
  rw [shape, Identifier.startsWithDigit] at noDigit
  have either : ((c.isUpper || c.isLower || c.isDigit) || c == '_') = true := own
  simpa [noCapital, noDigit] using either

theorem mem_names_append_left {name : String} {dotted : Bool} {first : List Token}
    (member : name ∈ names dotted first) (rest : List Token) : name ∈ names dotted (first ++ rest) := by
  induction first generalizing dotted with
  | nil => cases member
  | cons token tokens ih =>
    cases token with
    | word text =>
      rw [names, List.mem_append] at member
      rw [List.cons_append, names, List.mem_append]
      exact member.imp_right ih
    | _ => exact ih member

/-! ### Paths -/

theorem fragment?_append {text rest : String} {f g : Fragment} (isFragment : fragment? text = some f)
    (isNext : fragment? rest = some g) (apart : f.isOpen = true → g.separates = true)
    (nonempty : text.toList ≠ []) (nonempty' : rest.toList ≠ []) :
    fragment? (text ++ rest) = some ⟨f.tokens ++ g.tokens, g.isOpen, f.separates, f.begins⟩ := by
  obtain ⟨_, _, _, _, _, _, _, separates, begins⟩ := fragment?_eq_some_iff.mp isFragment
  obtain ⟨ended, tokens, reader, last, run, pending, isTokens, separates', _⟩ :=
    fragment?_eq_some_iff.mp isNext
  have whole := run?_fragment isFragment fun isOpen => separates' ▸ apart isOpen
  rw [run] at whole
  have first : (text ++ rest).toList.head? = text.toList.head? := by
    rw [String.toList_append, List.head?_append_of_ne_nil _ nonempty]
  refine fragment?_eq_some_iff.mpr ⟨?_, f.tokens ++ tokens, reader, last, ?_, pending, ?_, ?_, ?_⟩
  · rwa [String.toList_append, List.getLast?_append_of_ne_nil _ nonempty']
  · rw [String.toList_append, whole]
    rfl
  · rw [isTokens, List.append_assoc]
  · rw [first, separates]
  · rw [first, begins]

end XmlRecords.SourceText

namespace XmlRecords.ModuleSource

open SourceText Schema Identifier
open CodecTable (innermost?)

/-- Names with dots between them, and the text that they make. -/
inductive IsDotted : String → List String → Prop
  | name {word : String} : IsName word → IsDotted word [word]
  | dot {text word : String} {words : List String} : IsDotted text words → IsName word →
      IsDotted (text ++ "." ++ word) (words ++ [word])

/-- The tokens of a path lead to a module: the first one is a word, and the words are the names on the way. -/
structure LeadsTo (path : List Token) (words : List String) : Prop where
  start : ∃ word rest, path = .word word :: rest
  apart : .word "import" ∉ path
  words : wordsOf path = words

theorem IsDotted.exists_path {text : String} {words : List String} (h : IsDotted text words) :
    text.toList ≠ [] ∧ ∃ path, IsPath text path ∧ LeadsTo path words := by
  have reserved {word : String} (isName : IsName word) : word ≠ "import" := by
    rintro rfl
    exact isName.free (by decide)
  have dot : SourceText.fragment? "." = some ⟨[.sign '.'], false, true, true⟩ :=
    fragment?_of_chars rfl rfl
  have filled {word : String} (isName : IsName word) : word.toList ≠ [] := by
    obtain ⟨⟨c, first, _⟩, _, _⟩ := isName
    rintro empty
    rw [empty] at first
    cases first
  induction h with
  | @name word isName =>
    have fragment := fragment?_word (isWordText_of_isName isName)
    have apart : Token.word "import" ∉ [.word word] := by simp [(reserved isName).symm]
    exact ⟨filled isName, [.word word], ⟨fragment, by simp, fun _ => rfl, apart⟩, ⟨word, [], rfl⟩, apart, rfl⟩
  | @dot text word words _ isName ih =>
    obtain ⟨nonempty, path, isPath, ⟨⟨first, rest, rfl⟩, _, rfl⟩⟩ := ih
    have fragment := fragment?_word (isWordText_of_isName isName)
    have stepped := fragment?_append isPath.fragment dot (fun _ => rfl) nonempty (by decide)
    have whole := fragment?_append stepped fragment (fun isOpen => by cases isOpen) (by simp [nonempty])
      (filled isName)
    have apart : Token.word "import" ∉ (Token.word first :: rest) ++ [Token.sign '.'] ++ [Token.word word] := by
      simpa [(reserved isName).symm] using isPath.apart
    refine ⟨by simp, _, ⟨whole, ?_, ?_, apart⟩, ⟨first, _, rfl⟩, apart, ?_⟩
    · simpa using isPath.unmarked
    · intro depth
      rw [List.foldl_append, List.foldl_append, isPath.level]
      rfl
    · simp [wordsOf]

/-! ### Names of schemas -/

/-- A schema whose names can stand in the source of its modules: those of its enumerations and types in class
statements, its own in a path inside the package, and all that is documented between quotes. -/
structure WellNamed (s : Schema) (package : Label) : Prop where
  classes : ∀ label ∈ s.enumerations.map (·.name) ++ s.declared.map (·.qualifiedName),
    NamesClass label.shown
  module : NamesModule s.name.shown
  package : package.isFalsy = true ∨ ∃ words, IsDotted package.shown words
  docs : ∀ label ∈ s.name :: s.rootElement :: s.declared.map (·.qualifiedName), IsDocText label.shown
  root : ∃ name, s.rootElement = .text name

/-- A schema whose types refer to its own types and enumerations, by fields of types that fields may have. -/
structure Sound (s : Schema) : Prop where
  closed : s.Closed
  regular : ∀ t ∈ s.declared, t.Regular

variable {s : Schema} {table : CodecTable} {t : ComplexType} {c : RecordClass} {u : Uses}

theorem isName_append_enums {name : String} (isName : IsName name) : IsName (name ++ "_enums") := by
  obtain ⟨⟨c, first, starts⟩, parts, _⟩ := isName
  have noDivider : ∀ word ∈ keywords, '_' ∉ word.toList := by decide
  refine ⟨⟨c, ?_, starts⟩, ?_, fun keyword => noDivider _ keyword (by simp)⟩
  · rw [String.toList_append, List.head?_append, first, Option.some_or]
  · rw [String.toList_append, List.forall_mem_append]
    exact ⟨parts, List.all_eq_true.mp (by decide +kernel)⟩

theorem WellNamed.exists_path {package : Label} (named : WellNamed s package) {name : String}
    (isName : s.name = .text name) : ∃ words path,
      IsPath (modulePath package (Identifier.module name ++ "_enums")) path ∧
        LeadsTo path (words ++ [Identifier.module name ++ "_enums"]) := by
  have own := named.module
  rw [isName, Json.shown, ← isName_module_iff] at own
  have last := isName_append_enums own
  unfold modulePath
  split
  · obtain ⟨_, path, isPath, isWords⟩ := (IsDotted.name last).exists_path
    exact ⟨[], path, isPath, isWords⟩
  · rename_i inside
    obtain ⟨words, isDotted⟩ := named.package.resolve_left inside
    obtain ⟨_, path, isPath, isWords⟩ := (isDotted.dot last).exists_path
    exact ⟨words, path, isPath, isWords⟩

theorem isDocText_append {first rest : String} (isDoc : IsDocText first) (isDoc' : IsDocText rest) :
    IsDocText (first ++ rest) := by
  rw [IsDocText, String.toList_append]
  exact List.forall_mem_append.mpr ⟨isDoc, isDoc'⟩

theorem WellNamed.isName {package : Label} (named : WellNamed s package) {className : String}
    (member : className ∈ s.enumerations.map Enumerated.className ++ s.declared.map ComplexType.className) :
    IsName className := by
  have own {label : Label}
      (inside : label ∈ s.enumerations.map (·.name) ++ s.declared.map (·.qualifiedName)) :
      IsName (recordClass label.shown) :=
    (isName_recordClass_iff _).mpr (named.classes label inside)
  rcases List.mem_append.mp member with isEnum | isType
  · obtain ⟨e, inside, rfl⟩ := List.mem_map.mp isEnum
    exact own (List.mem_append_left _ (List.mem_map_of_mem inside))
  · obtain ⟨t, inside, rfl⟩ := List.mem_map.mp isType
    exact own (List.mem_append_right _ (List.mem_map_of_mem inside))

theorem mem_enumClasses {e : Enumerated} (member : e ∈ s.enumerations) {name : String} (isName : e.name = .text name) :
    recordClass name ∈ s.enumerations.map Enumerated.className :=
  List.mem_map.mpr ⟨e, member, by rw [Enumerated.className, isName, Json.shown]⟩

theorem mem_typeClasses (member : t ∈ s.declared) {name : String} (isName : t.qualifiedName = .text name) :
    recordClass name ∈ s.declared.map ComplexType.className :=
  List.mem_map.mpr ⟨t, member, by rw [ComplexType.className, isName, Json.shown]⟩

/-! ### Fields and classes -/

def FieldSource.Mentions (f : FieldSource) (className : String) : Prop :=
  Piece.enumClass className ∈ f.item ∨ Piece.recordClass className ∈ f.item

/-- The classes and constants that a class uses: itself, and those of its fields. -/
def RecordClass.uses (c : RecordClass) : Uses where
  classes := fun className => className = c.className ∨ ∃ f ∈ c.fields, f.Mentions className
  codecs := fun name => ∃ f ∈ c.fields, ∃ default, f.content = .simple (.constant name) default

/-- The annotation of a type is read as tokens, which name the classes that it mentions. -/
theorem exists_phrase_itemType {type : DeclaredType} {item : List Piece}
    (isItem : itemType s type = .ok item)
    (known : ∀ className, Piece.enumClass className ∈ item ∨ Piece.recordClass className ∈ item →
      IsWordText className ∧ u.classes className) : beginsRow item = true ∧ ∃ tokens, Phrase u item tokens ∧
      ∀ className, Piece.enumClass className ∈ item → className ∈ names false tokens := by
  have word {piece : Piece} (text : String)
      (isFragment : piece.fragment? = some ⟨[.word text], true, false, true⟩)
      (fine : SourceText.isCommon text = true ∨ u.classes text) :
      beginsRow [piece] = true ∧ Phrase u [piece] [.word text] := by
    refine ⟨?_, ?_, ?_, fun _ => rfl⟩
    · simp [beginsRow, isFragment]
    · simp [rowTokens?, startsApart, isFragment]
    · constructor <;> simp [names, calls, fine]
  induction type generalizing item with
  | primitive p =>
    obtain rfl := Except.ok.inj isItem
    have isFragment : SourceText.fragment? (builtInType p) = some ⟨[.word (builtInType p)], true, false, true⟩ := by
      cases p <;> simp [builtInType, fragment?_items]
    have fine : SourceText.isCommon (builtInType p) = true := by cases p <;> simp [builtInType, isCommon_items]
    obtain ⟨begins, phrase⟩ := @word (.plain (builtInType p)) (builtInType p) isFragment (.inl fine)
    exact ⟨begins, _, phrase, by simp⟩
  | enumerated e =>
    simp only [itemType, bind_eq_ok_iff, pure, Except.pure, Except.ok.injEq] at isItem
    obtain ⟨className, _, rfl⟩ := isItem
    obtain ⟨isWord, own⟩ := known className (.inl List.mem_cons_self)
    obtain ⟨begins, phrase⟩ := word className (fragment?_enumClass isWord) (.inr own)
    exact ⟨begins, _, phrase, by simp [names]⟩
  | list inner ih =>
    simp only [itemType, bind_eq_ok_iff, pure, Except.pure, Except.ok.injEq] at isItem
    obtain ⟨pieces, isInner, rfl⟩ := isItem
    obtain ⟨_, tokens, phrase, named⟩ :=
      ih isInner fun className mentions => known className (by simpa using mentions)
    refine ⟨?_, _, FieldSource.phrase_tuple phrase, fun className mentions => ?_⟩
    · simp [beginsRow, fragment?_items]
    have inside := named className (by simpa using mentions)
    refine mem_names_append_left ?_ _
    rw [names_append (by simp)]
    exact List.mem_append_right _ inside
  | complex id =>
    simp only [itemType, bind_eq_ok_iff, pure, Except.pure, Except.ok.injEq] at isItem
    obtain ⟨className, _, rfl⟩ := isItem
    obtain ⟨isWord, own⟩ := known className (.inr List.mem_cons_self)
    obtain ⟨begins, phrase⟩ := word className (fragment?_recordClass isWord) (.inr own)
    exact ⟨begins, _, phrase, by simp⟩

theorem mem_classes_of_mentions (sound : Sound s) (declared : t ∈ s.declared) (ofType : c.Of s table t)
    {f : FieldSource} (member : f ∈ c.fields) (className : String) :
    (Piece.enumClass className ∈ f.item → className ∈ s.enumerations.map Enumerated.className) ∧
      (Piece.recordClass className ∈ f.item → className ∈ s.declared.map ComplexType.className) := by
  obtain ⟨type, isField, _, _, _, _, shows⟩ := ofType.exists_shows member
  have regular := sound.regular t declared
  constructor
  · intro mentions
    obtain ⟨e, name, holds, isName, rfl⟩ := (enumClass_mem_itemType_iff shows.item).mp mentions
    exact mem_enumClasses (mem_enumerations_of_field sound.closed declared isField holds) isName
  · intro mentions
    obtain ⟨id, rfl, known⟩ :=
      recordClass_mem_itemType (flat_of_mem_fieldTypes regular isField) shows.item mentions
    have reference := mem_references_of_fieldTypes regular isField
    obtain ⟨u, own, rfl⟩ :=
      List.mem_map.mp (sound.closed.mem_of_refers ⟨t, sound.closed.type? declared, reference⟩)
    rw [sound.closed.type? own, Option.map_some, Option.getD_some] at known
    obtain ⟨name, isName, rfl⟩ := classNameOf_eq_ok_iff.mp known
    exact mem_typeClasses own isName

theorem isSmallWord_field (name : String) : IsSmallWord (Identifier.field name) :=
  isSmallWord_of_nameable (isSafeField_field name).nameable (isSafeField_field name).small

theorem isSmallWord_constant {name : String} (own : CodecTable.Private name) : IsSmallWord name :=
  ⟨⟨'_', own.start, .inr rfl⟩, own.word⟩

theorem worded_field (grown : table.Grown) {f : FieldSource} {name : Label} {type : DeclaredType}
    {isAttribute : Bool} {occurrence : Occurrence} {default : Option String}
    (shows : f.Shows s table name type isAttribute occurrence default)
    (classes : ∀ className, f.Mentions className → IsWordText className ∧ u.classes className)
    (codecs : ∀ constant default, f.content = .simple (.constant constant) default → u.codecs constant) :
    f.Worded u := by
  obtain ⟨begins, tokens, phrase, _⟩ := exists_phrase_itemType shows.item classes
  have content := shows.content
  refine ⟨?_, ⟨tokens, phrase⟩, begins, fun codec default isSimple => ?_, fun className isRecord => ?_⟩
  · have named := congrArg FieldKey.name shows.key
    dsimp only at named
    rw [FieldSource.name, named]
    exact isSmallWord_field f.key.xmlName
  · rw [isSimple] at content
    cases content with
    | simple _ known =>
      cases codec with
      | builtIn p => trivial
      | constant constant =>
        exact ⟨isSmallWord_constant (grown.private_names _ known.mem_names), codecs _ _ isSimple⟩
  · rw [isRecord] at content
    have item := shows.item
    cases content with
    | record known =>
      simp only [itemType, bind_eq_ok_iff, pure, Except.pure, Except.ok.injEq, known, exists_eq_left'] at item
      exact classes className (.inr (by simp [← item]))

theorem worded_class {package : Label} (named : WellNamed s package) (sound : Sound s)
    (grown : table.Grown) (declared : t ∈ s.declared) (ofType : c.Of s table t) : c.Worded c.uses := by
  have label := List.mem_map_of_mem (f := ComplexType.qualifiedName) declared
  refine ⟨?_, ?_, .inl rfl, fun f member => ?_⟩
  · have own := named.docs _ (List.mem_cons_of_mem _ (List.mem_cons_of_mem _ label))
    rw [ofType.name, Json.shown] at own
    exact isDocText_append (isDocText_append (by decide) own)
      (by decide)
  · rw [ofType.className]
    exact isWordText_of_isName (named.isName (List.mem_append_right _ (List.mem_map_of_mem declared)))
  · obtain ⟨_, _, _, _, _, _, shows⟩ := ofType.exists_shows member
    refine worded_field grown shows (fun className mentions => ⟨?_, .inr ⟨f, member, mentions⟩⟩)
      fun constant default isSimple => ⟨f, member, default, isSimple⟩
    obtain ⟨isEnum, isType⟩ := mem_classes_of_mentions sound declared ofType member className
    refine isWordText_of_isName (named.isName (List.mem_append.mpr ?_))
    exact mentions.imp isEnum isType

/-! ### Modules of enumerations -/

theorem isName_of_isSafe {name : String} (safe : IsSafe name) : IsName name := by
  obtain ⟨⟨c, first, noDigit⟩, word, free⟩ := safe
  have parts : ∀ d ∈ name.toList, isWordChar d = true := fun d member => isWordChar_iff.mpr (word d member)
  refine ⟨⟨c, first, ?_⟩, fun d member => (isIdentifierPart_of_isWordChar (parts d member)).1, free⟩
  exact (isIdentifierPart_of_isWordChar (parts c (List.mem_of_head? first))).2.mpr noDigit

theorem isDocText_docText {m : ModuleSource} (each : ∀ line ∈ m.doc, IsDocText line) :
    IsDocText m.docText := by
  have feed : IsDocText "\n" := by decide
  rw [docText, IsDocText, String.toList_join, List.flatMap_map, List.forall_mem_flatMap]
  exact fun line member => isDocText_append (each line member) feed

theorem isDocText_generatedNotice : IsDocText generatedNotice ∧ IsDocText "" :=
  ⟨isDocText_of_chars rfl rfl, by simp [IsDocText]⟩

def isImportToken : Token → Bool
  | .word text => text != "import"
  | .sign c => c == '.' || c == ','
  | _ => false

theorem statements_fixedImports {moduleName : String} {names : List String} {path tokens : List Token}
    (isPath : SourceText.fragment? moduleName = some ⟨path, true, false, true⟩)
    (isNames : SourceText.fragment? (", ".intercalate names) = some ⟨tokens, true, false, true⟩)
    (plain : path.all isImportToken = true) (plain' : tokens.all isImportToken = true) :
    (Declaration.imports moduleName names).Readable ∧
      (Declaration.imports moduleName names).statements = [importBlock path tokens] := by
  have unmarked {ts : List Token} (plain : ts.all isImportToken = true) : ∀ n, .line n ∉ ts := fun n member => by
    have own := List.all_eq_true.mp plain _ member
    cases own
  have level {ts : List Token} (plain : ts.all isImportToken = true) : Level ts := by
    intro depth
    induction ts with
    | nil => rfl
    | cons token ts ih =>
      obtain ⟨own, below⟩ := (Bool.and_eq_true _ _).mp plain
      have kept : token.depthAfter depth = depth := by
        cases token with
        | sign c =>
          have other : c = '.' ∨ c = ',' := by simpa [isImportToken] using own
          rcases other with rfl | rfl <;> simp [Token.depthAfter]
        | _ => rfl
      rw [List.foldl_cons, kept, ih below]
  refine statements_imports ⟨isPath, unmarked plain, level plain, fun member => ?_⟩ isNames (unmarked plain')
    (level plain')
  have own := List.all_eq_true.mp plain _ member
  cases own

def baseImport : Block :=
  importBlock [.word "xsd_binding", .sign '.', .word "enums"] [.word "XsdEnum"]

/-- A module of enumerations is read as its documentation, the import of the base class, and a class for each
enumeration. -/
theorem read?_enumsModule {package : Label} (named : WellNamed s package) {m : ModuleSource}
    (made : enumsModule s = .ok m) : ∃ points classes,
      List.Forall₂ (fun e c => c.Of e) s.enumerations classes ∧
        read? m.print = some (docStatement points :: baseImport :: classes.map EnumClass.classBlock) := by
  obtain ⟨classes, ofEnumerations, declared⟩ := declarations_enumsModule made
  have doc : IsDocText m.docText := by
    unfold enumsModule at made
    obtain ⟨_, _, made⟩ := bind_eq_ok_iff.mp made
    obtain rfl := Except.ok.inj made
    refine isDocText_docText ?_
    simp only [List.forall_mem_cons]
    refine ⟨isDocText_append (isDocText_append (by decide)
      (named.docs _ List.mem_cons_self)) (by decide), ?_⟩
    exact ⟨isDocText_generatedNotice.2, isDocText_generatedNotice.1, List.forall_mem_nil _⟩
  have imported : (Declaration.imports "xsd_binding.enums" ["XsdEnum"]).Readable ∧
      (Declaration.imports "xsd_binding.enums" ["XsdEnum"]).statements = [baseImport] :=
    statements_fixedImports (by simp [fragment?_imports]) (by simp [fragment?_imports]) (by decide) (by decide)
  have own : ∀ c ∈ classes, (Declaration.enumClass c).Readable ∧
      (Declaration.enumClass c).statements = [c.classBlock] := by
    intro c member
    obtain ⟨e, inside, ofEnumeration⟩ := exists_of_forall₂_left ofEnumerations.flip member
    refine EnumClass.statements_enumClass ?_ fun entry isEntry => ?_
    · rw [ofEnumeration.className]
      exact isWordText_of_isName (named.isName (List.mem_append_left _ (List.mem_map_of_mem inside)))
    · rw [ofEnumeration.tags] at isEntry
      obtain ⟨value, _, rfl⟩ := List.mem_map.mp isEntry
      exact isWordText_of_isName (isName_of_isSafe (isSafeTag_tag value).toIsSafe)
  refine ⟨docPoints m.docText, classes, ofEnumerations, ?_⟩
  rw [read?_print (fragment?_docPiece doc), declared, List.flatMap_cons, imported.2, List.flatMap_map,
    List.flatMap_congr fun c member => (own c member).2, ← List.map_eq_flatMap]
  · rfl
  · rw [declared, List.forall_mem_cons, List.forall_mem_map]
    exact ⟨imported.1, fun c member => (own c member).1⟩

/-! ### Records modules -/

def standardBlocks : List Block := [
  importBlock [.word "__future__"] [.word "annotations"],
  importBlock [.word "dataclasses"] [.word "dataclass"],
  importBlock [.word "typing"] [.word "TextIO"],
  importBlock [.word "lxml"] [.word "etree"],
  importBlock [.word "xsd_binding"]
    [.word "document", .sign ',', .word "nodes", .sign ',', .word "values", .sign ',', .word "writer"],
  importBlock [.word "xsd_binding", .sign '.', .word "document"]
    [.word "DriverOptions", .sign ',', .word "PathLike"],
  importBlock [.word "xsd_binding", .sign '.', .word "errors"] [.word "FieldNotPresentError"],
  importBlock [.word "xsd_binding", .sign '.', .word "records"] [.word "Record"]]

theorem statements_standardImports :
    (∀ d ∈ standardImports.flatMap (·.declarations), d.Readable) ∧
      (standardImports.flatMap (·.declarations)).flatMap Declaration.statements = standardBlocks := by
  have names : ", ".intercalate ["document", "nodes", "values", "writer"] = "document, nodes, values, writer" ∧
      ", ".intercalate ["DriverOptions", "PathLike"] = "DriverOptions, PathLike" := by decide
  have one := @statements_fixedImports
  obtain ⟨future, isFuture⟩ := @one "__future__" ["annotations"] [.word "__future__"] [.word "annotations"]
    (by simp [fragment?_imports]) (by simp [fragment?_imports]) (by decide) (by decide)
  obtain ⟨classes, isClasses⟩ := @one "dataclasses" ["dataclass"] [.word "dataclasses"] [.word "dataclass"]
    (by simp [fragment?_imports]) (by simp [fragment?_imports]) (by decide) (by decide)
  obtain ⟨typing, isTyping⟩ := @one "typing" ["TextIO"] [.word "typing"] [.word "TextIO"]
    (by simp [fragment?_imports]) (by simp [fragment?_imports]) (by decide) (by decide)
  obtain ⟨lxml, isLxml⟩ := @one "lxml" ["etree"] [.word "lxml"] [.word "etree"]
    (by simp [fragment?_imports]) (by simp [fragment?_imports]) (by decide) (by decide)
  obtain ⟨package, isPackage⟩ := @one "xsd_binding" ["document", "nodes", "values", "writer"]
    [.word "xsd_binding"]
    [.word "document", .sign ',', .word "nodes", .sign ',', .word "values", .sign ',', .word "writer"]
    (by simp [fragment?_imports]) (by rw [names.1]; simp [fragment?_imports]) (by decide) (by decide)
  obtain ⟨document, isDocument⟩ := @one "xsd_binding.document" ["DriverOptions", "PathLike"]
    [.word "xsd_binding", .sign '.', .word "document"] [.word "DriverOptions", .sign ',', .word "PathLike"]
    (by simp [fragment?_imports]) (by rw [names.2]; simp [fragment?_imports]) (by decide) (by decide)
  obtain ⟨errors, isErrors⟩ := @one "xsd_binding.errors" ["FieldNotPresentError"]
    [.word "xsd_binding", .sign '.', .word "errors"] [.word "FieldNotPresentError"]
    (by simp [fragment?_imports]) (by simp [fragment?_imports]) (by decide) (by decide)
  obtain ⟨records, isRecords⟩ := @one "xsd_binding.records" ["Record"]
    [.word "xsd_binding", .sign '.', .word "records"] [.word "Record"]
    (by simp [fragment?_imports]) (by simp [fragment?_imports]) (by decide) (by decide)
  simp only [standardImports, List.flatMap_cons, List.flatMap_nil, List.cons_append, List.nil_append,
    List.append_nil, List.forall_mem_cons]
  refine ⟨⟨future, classes, typing, lxml, package, document, errors, records, List.forall_mem_nil _⟩, ?_⟩
  simp only [isFuture, isClasses, isTyping, isLxml, isPackage, isDocument, isErrors, isRecords,
    List.cons_append, List.nil_append]
  rfl

/-- The import of enumerations by the tokens of the path, if there are any. -/
def enumImportBlocks (path : List Token) (used : List String) : List Block :=
  if used.isEmpty then []
  else
    [importBlock path
      (Token.sign '(' :: used.flatMap (fun name => [Token.word name, .sign ',']) ++ [Token.sign ')'])]

/-- What stands before the constants: documentation of some points, imports, and the name of the root
element. -/
def openingBlocks (points : List Nat) (path : List Token) (used : List String) (root : String) : List Block :=
  docStatement points :: (standardBlocks ++ (enumImportBlocks path used ++
    [constantBlock "ROOT_ELEMENT" [.literal (Text.writtenPoints root)]]))

def constantBlocks (table : CodecTable) : List Block :=
  table.definitions.map fun entry => constantBlock entry.1 entry.2.tokens

def classBlocks (classes : List RecordClass) : List Block :=
  classes.flatMap fun c => [RecordClass.decoratorBlock, c.classBlock]

def functionBlocks (root : String) : List Block := (documentFunctions root).flatMap methodBlocks

theorem statements_enumImportsOf {path : String} {tokens : List Token} {used : List String}
    (isPath : IsPath path tokens) (isNames : ∀ name ∈ used, IsName name) :
    (∀ d ∈ enumImportsOf path used, d.Readable) ∧
      (enumImportsOf path used).flatMap Declaration.statements = enumImportBlocks tokens used := by
  obtain ⟨readable, same⟩ :=
    statements_enumImports isPath fun name member => isWordText_of_isName (isNames name member)
  unfold enumImportsOf enumImportBlocks
  split
  · exact ⟨List.forall_mem_nil _, rfl⟩
  · exact ⟨List.forall_mem_singleton.mpr readable, by rw [List.flatMap_singleton, same]⟩

theorem statements_constantsOf (grown : table.Grown)
    (classes : ∀ constant className, (constant, CodecTerm.enumeration className) ∈ table.definitions →
      IsName className) :
    (∀ d ∈ constantsOf table, d.Readable) ∧
      (constantsOf table).flatMap Declaration.statements = constantBlocks table := by
  have each : ∀ entry ∈ table.definitions, (Declaration.constant entry.1 entry.2.pieces).Readable ∧
      (Declaration.constant entry.1 entry.2.pieces).statements = [constantBlock entry.1 entry.2.tokens] := by
    rintro ⟨name, term⟩ member
    have own := isSmallWord_constant (grown.private_names name (List.mem_map_of_mem (f := (·.1)) member))
    refine @statements_constant .all _ _ _ own.isWordText ?_
    cases term with
    | enumeration className => exact phrase_enumeration (isWordText_of_isName (classes name className member))
    | list item =>
      refine phrase_list ?_
      cases item with
      | builtIn p => trivial
      | constant used =>
        exact ⟨isSmallWord_constant (grown.private_names used (grown.mem_names_of_list member)), trivial⟩
  rw [constantsOf, List.forall_mem_map, List.flatMap_map]
  refine ⟨fun entry member => (each entry member).1, ?_⟩
  rw [List.flatMap_congr fun entry member => (each entry member).2, ← List.map_eq_flatMap, constantBlocks]

theorem mem_enumClasses_of_holds (closed : s.Closed) {className : String} (declared : t ∈ s.declared)
    (holds : HoldsTagsOf t className) : className ∈ s.enumerations.map Enumerated.className := by
  obtain ⟨type, isField, e, name, isEnum, isName, rfl⟩ := holds
  exact mem_enumClasses (mem_enumerations_of_field closed declared isField isEnum) isName

theorem Emitted.mem_enumClasses {m : ModuleSource} {path root : String} {used : List String}
    {types : List ComplexType} {classes : List RecordClass} (h : Emitted s m path root used table types classes)
    (closed : s.Closed) {constant className : String}
    (member : (constant, CodecTerm.enumeration className) ∈ table.definitions) :
    className ∈ s.enumerations.map Enumerated.className := by
  obtain ⟨t, declared, holds⟩ := (h.converted_iff closed).mp ⟨constant, member⟩
  exact mem_enumClasses_of_holds closed declared holds

theorem doc_of_recordsModule {package : Label} {m : ModuleSource} (named : WellNamed s package)
    (made : recordsModule s package = .ok m) : IsDocText m.docText := by
  unfold recordsModule at made
  simp only [bind_eq_ok_iff, pure, Except.pure, Except.ok.injEq, Prod.exists] at made
  obtain ⟨_, _, _, _, _, _, _, _, _, _, _, rfl⟩ := made
  refine isDocText_docText ?_
  simp only [List.forall_mem_cons]
  have root := named.docs _ (List.mem_cons_of_mem _ List.mem_cons_self)
  refine ⟨isDocText_append (isDocText_append (by decide)
    (named.docs _ List.mem_cons_self)) (by decide),
    isDocText_generatedNotice.2, isDocText_append (isDocText_append (by decide)
    root) (by decide), ?_⟩
  exact ⟨isDocText_generatedNotice.2, isDocText_generatedNotice.1, List.forall_mem_nil _⟩

theorem isName_root {package : Label} (named : WellNamed s package) (closed : s.Closed) {root : String}
    (isRoot : classNameOf (((s.type? s.rootType).map (·.qualifiedName)).getD .null) = .ok root) : IsName root := by
  obtain ⟨name, isName, rfl⟩ := classNameOf_eq_ok_iff.mp isRoot
  cases found : s.type? s.rootType with
  | none =>
    rw [found] at isName
    cases isName
  | some t =>
    rw [found] at isName
    have member := BoundSchema.mem_of_type? found
    rw [closed.undeclared, List.append_nil] at member
    exact named.isName (List.mem_append_right _ (mem_typeClasses member isName))

/-- A records module is read as what stands before its constants, the constants, the classes and the functions. -/
theorem Emitted.read?_print {package : Label} {m : ModuleSource} {path root : String} {used : List String}
    {types : List ComplexType} {classes : List RecordClass} {tokens : List Token} {rootName : String}
    (h : Emitted s m path root used table types classes) (named : WellNamed s package) (sound : Sound s)
    (isPath : IsPath path tokens) (isRoot : s.rootElement = .text rootName) (doc : IsDocText m.docText) :
    read? m.print = some (openingBlocks (docPoints m.docText) tokens used rootName ++
      (constantBlocks table ++ (classBlocks classes ++ functionBlocks root))) := by
  obtain ⟨_, isUsed⟩ := usedEnums_spec sound.regular h.isUsed
  have imports := statements_enumImportsOf isPath fun name member => by
    obtain ⟨t, declared, holds⟩ := (isUsed name).mp member
    exact named.isName (List.mem_append_left _ (mem_enumClasses_of_holds sound.closed declared holds))
  have constants := statements_constantsOf h.grown fun constant className member =>
    named.isName (List.mem_append_left _ (h.mem_enumClasses sound.closed member))
  have element : (Declaration.constant "ROOT_ELEMENT" [labelPiece s.rootElement]).Readable ∧
      (Declaration.constant "ROOT_ELEMENT" [labelPiece s.rootElement]).statements =
        [constantBlock "ROOT_ELEMENT" [.literal (Text.writtenPoints rootName)]] := by
    have isWord : IsWordText "ROOT_ELEMENT" := isWordText_of_isName (by decide)
    refine statements_constant (u := .all) isWord ⟨?_, ?_, fun _ => rfl⟩
    · simp [isRoot, labelPiece, rowTokens?, startsApart, fragment?_text]
    · constructor <;> simp [Uses.all]
  have own : ∀ c ∈ classes, (Declaration.recordClass c).Readable ∧
      (Declaration.recordClass c).statements = [RecordClass.decoratorBlock, c.classBlock] := by
    intro c member
    obtain ⟨t, isType, ofType⟩ := exists_of_forall₂_left h.ofTypes.flip member
    have declared := (h.types_perm sound.closed).subset isType
    exact RecordClass.statements_recordClass (worded_class named sound h.grown declared ofType)
  have functions : ∀ f ∈ documentFunctions root, (Declaration.function f).Readable := by
    intro f member
    have spoken := spoken_documentFunctions
      (isWordText_of_isName (isName_root named sound.closed h.isRoot)) f member
    refine (statements_function spoken ?_).1
    simp only [documentFunctions, List.mem_cons, List.not_mem_nil, or_false] at member
    rcases member with rfl | rfl | rfl | rfl <;> rfl
  rw [ModuleSource.read?_print (fragment?_docPiece doc), h.declarations]
  · simp only [List.flatMap_append, List.flatMap_cons, List.flatMap_map, statements_standardImports.2, imports.2,
      element.2, constants.2, List.flatMap_congr fun c member => (own c member).2]
    simp only [openingBlocks, List.cons_append, List.nil_append, List.append_assoc]
    rfl
  · rw [h.declarations]
    simp only [List.forall_mem_append, List.forall_mem_cons, List.forall_mem_map]
    exact ⟨statements_standardImports.1, imports.1, element.1, constants.1, fun c member => (own c member).1,
      functions⟩

theorem read?_recordsModule {package : Label} {m : ModuleSource} (named : WellNamed s package)
    (sound : Sound s) {name : String} (isName : s.name = .text name) (made : recordsModule s package = .ok m) :
    ∃ points path words rootName root used table types classes,
      Emitted s m (modulePath package (Identifier.module name ++ "_enums")) root used table types classes ∧
      LeadsTo path (words ++ [Identifier.module name ++ "_enums"]) ∧
      read? m.print = some (openingBlocks points path used rootName ++
        (constantBlocks table ++ (classBlocks classes ++ functionBlocks root))) := by
  obtain ⟨root, used, table, types, classes, emitted⟩ := emitted_of_recordsModule isName made
  obtain ⟨words, path, isPath, isWords⟩ := named.exists_path isName
  obtain ⟨rootName, isRoot⟩ := named.root
  exact ⟨_, path, words, rootName, root, used, table, types, classes, emitted, isWords,
    emitted.read?_print named sound isPath isRoot (doc_of_recordsModule named made)⟩

end XmlRecords.ModuleSource
