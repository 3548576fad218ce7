import XmlRecords.ModuleSource.OfSchema
import XmlRecords.Proofs.ClassLines

/-!
The statements of generated modules as they are read, for each kind of declaration: what they bind, and what
they bind it to.
-/

set_option autoImplicit false
set_option relaxedAutoImplicit false

namespace XmlRecords.SourceText

theorem filterMap_filter_isSome {α β : Type} (f : α → Option β) (items : List α) :
    (items.filter (f · |>.isSome)).filterMap f = items.filterMap f := by
  rw [List.filterMap_filter]
  refine List.filterMap_congr fun item _ => ?_
  cases f item <;> rfl

def Block.shift (blanks : Nat) (b : Block) : Block :=
  ⟨b.margin + blanks, b.head, b.body.map (ModuleSource.shift blanks)⟩

theorem blocks_map_shift (blanks : Nat) (lines : List Line) :
    blocks (lines.map (ModuleSource.shift blanks)) = (blocks lines).map (Block.shift blanks) := by
  induction lines with
  | nil => rfl
  | cons line lines ih =>
    have apart : ((fun b : Block => decide (line.margin + blanks < b.margin)) ∘ Block.shift blanks) =
        fun b => decide (line.margin < b.margin) := by
      funext b
      simp [Block.shift]
    have own : (ModuleSource.shift blanks line).margin = line.margin + blanks := rfl
    rw [List.map_cons, blocks, blocks, List.map_cons, ih, own, List.takeWhile_map, List.dropWhile_map, apart,
      Block.shift, List.flatMap_map, List.map_flatMap]
    rfl

theorem blocks_append_of_low {first rest : List Line}
    (low : ∀ next, rest.head? = some next → next.margin = 0) :
    blocks (first ++ rest) = blocks first ++ blocks rest :=
  blocks_append fun l _ next isNext => by rw [low next isNext]; exact Nat.zero_le _

theorem blocks_indented (tokens : List Token) (inner : List Line) :
    blocks (⟨0, tokens⟩ :: inner.map (ModuleSource.shift 4)) =
      [⟨0, tokens, inner.map (ModuleSource.shift 4)⟩] :=
  blocks_cons (List.forall_mem_map.mpr fun l _ => by simp [ModuleSource.shift])

theorem blocks_map {α : Type} (tokens : α → List Token) (items : List α) :
    blocks (items.map fun item => ⟨0, tokens item⟩) = items.map fun item => ⟨0, tokens item, []⟩ := by
  rw [List.map_eq_flatMap, blocks_flatMap fun item _ => ⟨rfl, fun _ _ => Nat.zero_le _⟩,
    List.map_eq_flatMap]
  rfl

end XmlRecords.SourceText

namespace XmlRecords.ModuleSource

open SourceText

variable {u : Uses}

/-- A declaration whose first line begins at the margin is a statement of its own, or some. -/
theorem Reads.statements {d : Declaration} {line : SourceText.Line} {read : List SourceText.Line}
    (reads : Reads d.lines (line :: read)) (low : line.margin = 0) :
    d.Readable ∧ d.statements = blocks (line :: read) := by
  have still : d.lines.map (Line.indent 0) = d.lines := List.map_id' d.lines
  have isRead := reads.eq
  obtain ⟨legible, level, starts, _⟩ := reads 0
  rw [still] at legible level starts
  refine ⟨⟨legible, level, ?_⟩, by rw [Declaration.statements, isRead]⟩
  rw [readLines] at isRead
  cases shape : tokensOf d.lines with
  | nil =>
    rw [shape] at isRead
    cases isRead
  | cons token tokens =>
    rw [shape] at isRead starts
    cases token with
    | line margin =>
      rw [linesOf, splitLines, if_pos rfl] at isRead
      obtain ⟨rfl, _⟩ := List.cons.inj isRead
      exact ⟨tokens, by rw [show margin = 0 from low]⟩
    | _ => cases starts

/-! ### Methods -/

def methodBlocks (m : Method) : List Block := blocks (readLines m.lines)

def definitionBlock (m : Method) : Block :=
  ⟨0, headTokens m.name ((rowTokens? m.parameters).getD []) ((rowTokens? m.result).getD []),
    (readLines m.body).map (shift 4)⟩

theorem methodBlocks_eq {m : Method} (spoken : m.Spoken u) :
    methodBlocks m = (decoratorLines m.decorators).map (fun l => ⟨0, l.tokens, []⟩) ++ [definitionBlock m] := by
  obtain ⟨parameters, isParameters⟩ := spoken.parameters
  obtain ⟨result, isResult⟩ := spoken.result
  have reads := reads_method spoken.decorators spoken.name isParameters isResult spoken.body.reads
  have own : blocks (decoratorLines m.decorators) =
      (decoratorLines m.decorators).map fun l => ⟨0, l.tokens, []⟩ := by
    rcases spoken.decorators with none | one
    · rw [none]
      rfl
    · rw [one]
      rfl
  rw [methodBlocks, reads.eq, List.append_assoc, List.singleton_append, blocks_append_of_low, own,
    blocks_indented, definitionBlock, isParameters.row, isResult.row]
  · rfl
  · intro next isNext
    obtain rfl := Option.some.inj isNext
    rfl

theorem views_methodBlocks {m : Method} (spoken : m.Spoken u) :
    (methodBlocks m).filter (·.functionName?.isSome) = [definitionBlock m] ∧
      ∀ b ∈ methodBlocks m, b.className? = none ∧ b.assignment? = none ∧ b.annotation? = none ∧
        b.import? = none := by
  rw [methodBlocks_eq spoken]
  rcases spoken.decorators with none | one
  · rw [none]
    exact ⟨rfl, List.forall_mem_singleton.mpr ⟨rfl, rfl, rfl, rfl⟩⟩
  · rw [one]
    exact ⟨rfl, List.forall_mem_cons.mpr ⟨⟨rfl, rfl, rfl, rfl⟩,
      List.forall_mem_singleton.mpr ⟨rfl, rfl, rfl, rfl⟩⟩⟩

theorem functionNames_methodBlocks {m : Method} (spoken : m.Spoken u) :
    (methodBlocks m).filterMap Block.functionName? = [m.name] := by
  rw [← filterMap_filter_isSome, (views_methodBlocks spoken).1]
  rfl

/-! ### Record classes -/

namespace RecordClass

variable {c : RecordClass}

def classBlock (c : RecordClass) : Block :=
  ⟨0, [.word "class", .word c.className, .sign '(', .word "Record", .sign ')', .sign ':'],
    (readLines c.body).map (shift 4)⟩

def decoratorBlock : Block :=
  ⟨0, [.sign '@', .word "dataclass", .sign '(', .word "frozen", .sign '=', .word "True", .sign ')'], []⟩

theorem statements_recordClass (h : c.Worded u) : (Declaration.recordClass c).Readable ∧
    (Declaration.recordClass c).statements = [decoratorBlock, c.classBlock] := by
  have decorator : Reads [.plain 0 "@dataclass(frozen=True)"] [⟨0, decoratorBlock.head⟩] := by
    refine .row ?_ ?_ ?_ ?_
    · simp [beginsRow, fragment?_declarations]
    · simp [rowTokens?, startsApart, decoratorBlock, fragment?_declarations]
    · simp [decoratorBlock]
    · simp [Level, decoratorBlock, Token.depthAfter]
  have head : Reads [⟨0, ["class ", .recordClass c.className, "(Record):"]⟩] [⟨0, c.classBlock.head⟩] := by
    refine .row ?_ ?_ ?_ ?_
    · simp [beginsRow, fragment?_declarations]
    · simp [rowTokens?, startsApart, classBlock, fragment?_recordClass h.className,
        fragment?_declarations]
    · simp [classBlock]
    · simp [Level, classBlock, Token.depthAfter]
  have body := (reads_body h).1
  rw [← body.eq] at body
  have whole : Reads (Declaration.recordClass c).lines
      (⟨0, decoratorBlock.head⟩ :: ⟨0, c.classBlock.head⟩ :: (readLines c.body).map (shift 4)) :=
    decorator.append (head.append (body.indent 1))
  obtain ⟨readable, same⟩ := Reads.statements whole rfl
  refine ⟨readable, same.trans ?_⟩
  rw [← List.singleton_append, blocks_append_of_low, blocks_indented]
  · rfl
  · intro next isNext
    obtain rfl := Option.some.inj isNext
    rfl

/-! ### The body of a class -/

def docBlock (c : RecordClass) : Block := ⟨0, c.docLine.tokens, []⟩

def nameBlock (c : RecordClass) : Block := ⟨0, c.nameLine.tokens, []⟩

def fieldBlock (f : FieldSource) : Block := ⟨0, (fieldLine f).tokens, []⟩

theorem low_methods (spoken : ∀ m ∈ c.methods, m.Spoken u) :
    ∀ m ∈ c.methods, StartsAt 0 (readLines m.lines) := by
  intro m member
  obtain ⟨decorators, small, ⟨parameters, isParameters⟩, ⟨result, isResult⟩, body, isBody, _⟩ :=
    spoken m member
  refine ⟨?_, fun _ _ => Nat.zero_le _⟩
  rw [(reads_method decorators small isParameters isResult isBody).eq]
  rcases decorators with none | one
  · rw [none]
    rfl
  · rw [one]
    rfl

theorem inner_classBlock (h : c.Worded u) : c.classBlock.inner =
    ([c.docBlock, c.nameBlock] ++ c.fields.map fieldBlock ++ c.methods.flatMap methodBlocks).map
      (Block.shift 4) := by
  have methods := low_methods (spoken_methods h.className h.known h.fields)
  have body := (reads_body h).1.eq
  have fields : c.fields.map fieldLine = c.fields.map fun f => ⟨0, (fieldLine f).tokens⟩ := rfl
  have doc : blocks [c.docLine, c.nameLine] = [c.docBlock, c.nameBlock] := rfl
  rw [Block.inner, classBlock, blocks_map_shift, body, blocks_append_of_low, blocks_append_of_low, doc,
    fields, blocks_map, blocks_flatMap methods]
  · rfl
  · intro next isNext
    obtain ⟨f, _, rfl⟩ := List.mem_map.mp (List.mem_of_head? isNext)
    rfl
  · exact fun next isNext => margin_of_head?_flatMap methods isNext

theorem annotation?_inner (h : c.Worded u) : c.classBlock.inner.filterMap Block.annotation? =
    c.fields.map fun f =>
      (f.name, FieldSource.annotationTokens f.occurrence ((rowTokens? f.item).getD [])) := by
  have spoken := spoken_methods h.className h.known h.fields
  have moved (b : Block) : (b.shift 4).annotation? = b.annotation? := rfl
  have methods : (c.methods.flatMap methodBlocks).filterMap Block.annotation? = [] :=
    List.filterMap_eq_nil_iff.mpr fun b inside => by
      obtain ⟨m, isMethod, inside⟩ := List.mem_flatMap.mp inside
      exact ((views_methodBlocks (spoken m isMethod)).2 b inside).2.2.1
  have fields : (c.fields.map fieldBlock).filterMap Block.annotation? = c.fields.map fun f =>
      (f.name, FieldSource.annotationTokens f.occurrence ((rowTokens? f.item).getD [])) := by
    rw [List.filterMap_map, ← List.filterMap_eq_map']
    rfl
  have start : [c.docBlock, c.nameBlock].filterMap Block.annotation? = [] := rfl
  rw [inner_classBlock h, List.filterMap_map,
    List.filterMap_congr fun b _ => show (Block.annotation? ∘ Block.shift 4) b = b.annotation? from moved b,
    List.filterMap_append, List.filterMap_append, start, fields, methods, List.nil_append, List.append_nil]

theorem definitions_inner (h : c.Worded u) : c.classBlock.inner.filter (·.functionName?.isSome) =
    c.methods.map fun m => (definitionBlock m).shift 4 := by
  have spoken := spoken_methods h.className h.known h.fields
  have moved : (fun b : Block => b.functionName?.isSome) ∘ Block.shift 4 = (·.functionName?.isSome) := rfl
  have fields : (c.fields.map fieldBlock).filter (·.functionName?.isSome) = [] :=
    List.filter_eq_nil_iff.mpr (List.forall_mem_map.mpr fun f _ => by
      simp [fieldBlock, fieldLine, Block.functionName?])
  have methods : (c.methods.flatMap methodBlocks).filter (·.functionName?.isSome) =
      c.methods.map definitionBlock := by
    rw [List.filter_flatMap, List.map_eq_flatMap]
    exact List.flatMap_congr fun m member => (views_methodBlocks (spoken m member)).1
  have start : [c.docBlock, c.nameBlock].filter (·.functionName?.isSome) = [] := rfl
  rw [inner_classBlock h, List.filter_map, moved, List.filter_append, List.filter_append, start, fields, methods,
    List.nil_append, List.nil_append, List.map_map]
  rfl

theorem fine_classBlock (h : c.Worded u) : ∀ l ∈ c.classBlock.body, Fine u l.tokens := by
  rw [classBlock, (reads_body h).1.eq, List.forall_mem_map]
  exact (reads_body h).2

theorem exists_parse (h : c.Worded u) {f : FieldSource} (member : f ∈ c.attributes) {name : String}
    {default : Option String} (isSimple : f.content = .simple (.constant name) default) :
    ∃ l ∈ c.classBlock.body, (name, "parse") ∈ calls [] l.tokens := by
  obtain ⟨attributes, elements⟩ := List.forall_mem_append.mp h.fields
  have each := fun f member => FieldSource.readsFine_attributeRead (attributes f member)
  obtain ⟨l, inside, isCall⟩ := (each f member).2 name default isSimple
  have start : ReadsFine u (c.attributes.flatMap (·.attributeRead)) := .flatMap fun f member => (each f member).1
  have spoken := spoken_readMethod h.className h.known h.fields
  obtain ⟨parameters, isParameters⟩ := spoken.parameters
  obtain ⟨result, isResult⟩ := spoken.result
  have method := (reads_method spoken.decorators spoken.name isParameters isResult spoken.body.reads).eq
  have body : readLines c.readMethod.body = c.attributes.flatMap (fun f => readLines f.attributeRead) ++
      readLines c.elementReads ++ readLines c.construction := by
    rw [← (Reads.flatMap fun f member => (each f member).1.reads).eq]
    have others := readsFine_elementReads elements
    have first := start.readLines_append others
    rw [← first]
    exact (start.append others).readLines_append (readsFine_construction h.fields)
  refine ⟨shift 4 (shift 4 l), List.mem_map_of_mem ?_, isCall⟩
  rw [(reads_body h).1.eq]
  refine List.mem_append_right _ (List.mem_flatMap.mpr ⟨c.readMethod, ?_, ?_⟩)
  · exact List.mem_append_right _ List.mem_cons_self
  · rw [method, body]
    refine List.mem_append_right _ (List.mem_map_of_mem (List.mem_append_left _ (List.mem_append_left _ ?_)))
    exact List.mem_flatMap.mpr ⟨f, member, inside⟩

end RecordClass

/-! ### Imports -/

/-- The statement of an import, by the tokens of the path and those of the names. -/
def importBlock (path names : List Token) : Block :=
  ⟨0, Token.word "from" :: path ++ Token.word "import" :: names, []⟩

theorem import?_importBlock {path names : List Token} (apart : .word "import" ∉ path) :
    (importBlock path names).import? = some (wordsOf path, wordsOf names) := by
  have before : ∀ token ∈ path, (token != .word "import") = true := fun token member =>
    bne_iff_ne.mpr fun same => apart (same ▸ member)
  rw [importBlock, Block.import?]
  simp only [List.cons_append]
  rw [List.takeWhile_append_of_pos before, List.dropWhile_append_of_pos before]
  simp

/-- A path whose modules are divided by dots, as it is read. -/
structure IsPath (text : String) (tokens : List Token) : Prop where
  fragment : SourceText.fragment? text = some ⟨tokens, true, false, true⟩
  unmarked : ∀ n, .line n ∉ tokens
  level : Level tokens
  apart : .word "import" ∉ tokens

theorem statements_imports {moduleName : String} {names : List String} {path tokens : List Token}
    (isPath : IsPath moduleName path)
    (isNames : SourceText.fragment? (", ".intercalate names) = some ⟨tokens, true, false, true⟩)
    (unmarked : ∀ n, .line n ∉ tokens) (level : Level tokens) :
    (Declaration.imports moduleName names).Readable ∧
      (Declaration.imports moduleName names).statements = [importBlock path tokens] := by
  have reads : Reads (Declaration.imports moduleName names).lines [⟨0, (importBlock path tokens).head⟩] := by
    refine .row ?_ ?_ ?_ ?_
    · simp [beginsRow, fragment?_declarations]
    · simp [rowTokens?, startsApart, isPath.fragment, isNames, importBlock, fragment?_declarations]
    · simp [importBlock, isPath.unmarked, unmarked]
    · intro depth
      simp [importBlock, isPath.level.foldl, level.foldl]
  exact Reads.statements reads rfl

theorem statements_enumImports {moduleName : String} {classNames : List String} {path : List Token}
    (isPath : IsPath moduleName path) (isWords : ∀ name ∈ classNames, IsWordText name) :
    (Declaration.enumImports moduleName classNames).Readable ∧
      (Declaration.enumImports moduleName classNames).statements =
        [importBlock path (Token.sign '(' :: classNames.flatMap (fun name => [Token.word name, .sign ',']) ++
          [Token.sign ')'])] := by
  have reads : Reads (Declaration.enumImports moduleName classNames).lines
      [⟨0, Token.word "from" :: path ++ [Token.word "import", .sign '('] ++
        classNames.flatMap (fun name => [Token.word name, .sign ',']) ++ [Token.sign ')']⟩] := by
    refine Reads.bracketed ?_ ?_ ?_ ?_ (fun name member => ?_) (fun n => ?_) fun d => ?_
    · simp [beginsRow, fragment?_declarations]
    · simp [rowTokens?, startsApart, isPath.fragment, fragment?_declarations]
    · simp [beginsRow, fragment?_accessors]
    · simp [rowTokens?, startsApart, fragment?_accessors]
    · have isWord := isWords name member
      refine ⟨?_, ?_, ?_, ?_⟩
      · simp [beginsRow, fragment?_enumClass isWord]
      · simp [rowTokens?, startsApart, fragment?_enumClass isWord, fragment?_readers]
      · simp
      · simp [Level, Token.depthAfter]
    · simp [isPath.unmarked]
    · simp [isPath.level.foldl, Token.depthAfter]
  obtain ⟨readable, same⟩ := Reads.statements reads rfl
  refine ⟨readable, same.trans ?_⟩
  simp [importBlock, blocks]

/-! ### Constants -/

def constantBlock (name : String) (value : List Token) : Block := ⟨0, .word name :: .sign '=' :: value, []⟩

theorem statements_constant {name : String} {value : List Piece} {tokens : List Token}
    (isWord : IsWordText name) (isValue : Phrase u value tokens) :
    (Declaration.constant name value).Readable ∧
      (Declaration.constant name value).statements = [constantBlock name tokens] := by
  have reads : Reads (Declaration.constant name value).lines [⟨0, (constantBlock name tokens).head⟩] := by
    refine .row ?_ ?_ ?_ ?_
    · simp [beginsRow, fragment?_name isWord]
    · simp [rowTokens?, startsApart, fragment?_name isWord, isValue.row, constantBlock, fragment?_readers]
    · simp [constantBlock, isValue.fine.unmarked]
    · intro depth
      simp [constantBlock, isValue.level.foldl, Token.depthAfter]
  exact Reads.statements reads rfl

def CodecTerm.tokens : CodecTerm → List Token
  | .enumeration className =>
    [.word "values", .sign '.', .word "EnumCodec", .sign '(', .word className, .sign ')']
  | .list item => [Token.word "values", .sign '.', .word "ListCodec", .sign '('] ++ item.tokens ++ [Token.sign ')']

theorem phrase_enumeration {className : String} (isWord : IsWordText className) :
    Phrase .all (CodecTerm.enumeration className).pieces (CodecTerm.enumeration className).tokens := by
  refine ⟨?_, ?_, ?_⟩
  · simp [CodecTerm.pieces, CodecTerm.tokens, rowTokens?, startsApart, fragment?_enumClass isWord,
      fragment?_declarations, fragment?_accessors]
  · constructor <;> simp [CodecTerm.tokens, Uses.all]
  · simp [Level, CodecTerm.tokens, Token.depthAfter]

theorem phrase_list {item : CodecName} (fit : item.Fit .all) :
    Phrase .all (CodecTerm.list item).pieces (CodecTerm.list item).tokens := by
  refine ⟨?_, ?_, ?_⟩
  · simp [CodecTerm.pieces, CodecTerm.tokens, rowTokens?, startsApart, fragment?_codec fit,
      fragment?_declarations, fragment?_accessors]
  · cases item <;> constructor <;> simp [CodecTerm.tokens, CodecName.tokens, Uses.all]
  · intro depth
    cases item <;> simp [CodecTerm.tokens, CodecName.tokens, Token.depthAfter]

/-! ### Classes of enumerations -/

namespace EnumClass

variable {c : EnumClass}

def classBlock (c : EnumClass) : Block :=
  ⟨0, [.word "class", .word c.className, .sign '(', .word "XsdEnum", .sign ')', .sign ':'],
    (readLines c.body).map (shift 4)⟩

theorem isWordText_toString (n : Nat) : IsWordText (toString n) := by
  have digits : ∀ c ∈ (toString n).toList, c.isDigit = true := by
    intro c member
    rw [Nat.toString_eq_repr, Nat.toList_repr] at member
    exact Nat.isDigit_of_mem_toDigits (by decide) (by decide) member
  refine ⟨?_, fun c member => by simp [isWordPart, Identifier.isWordChar, Char.isAlphanum, digits c member]⟩
  cases shape : (toString n).toList with
  | nil =>
    rw [Nat.toString_eq_repr, Nat.toList_repr] at shape
    exact absurd shape Nat.toDigits_ne_nil
  | cons c cs =>
    rw [shape] at digits
    simp [isWord, List.all_eq_true.mpr digits]

theorem readsFine_body (isWords : ∀ entry ∈ c.tags, IsWordText entry.1) : ReadsFine .all c.body := by
  have texts : ReadsFine .all (Line.plain 0 "__canonical__ = \x7b" ::
      c.tags.map (fun entry => ⟨1, [.literal entry.1, ": ", .literal entry.2, ","]⟩) ++
        [Line.plain 0 "\x7d"]) := by
    refine .bracketed [.word "__canonical__", .sign '=', .sign '\x7b'] [.sign '\x7d'] (fun entry =>
      [.literal (Text.writtenPoints entry.1), .sign ':', .literal (Text.writtenPoints entry.2), .sign ','])
      ⟨?_, ?_, ?_⟩ ⟨?_, ?_, ?_⟩ (fun entry _ => ⟨?_, ?_, ?_, ?_⟩) fun d => ⟨?_, ?_⟩
    · simp [beginsRow, fragment?_declarations]
    · simp [rowTokens?, startsApart, fragment?_declarations]
    · constructor <;> simp [Uses.all]
    · simp [beginsRow, fragment?_declarations]
    · simp [rowTokens?, startsApart, fragment?_declarations]
    · constructor <;> simp [Uses.all]
    · simp [beginsRow, fragment?_text]
    · simp [rowTokens?, startsApart, fragment?_text, fragment?_method, fragment?_readers]
    · constructor <;> simp [Uses.all]
    · simp [Level, Token.depthAfter]
    · simp [Token.depthAfter]
    · simp [Token.depthAfter]
  have unknown : ReadsFine .all [.plain 0 "UNKNOWN = -1"] := by
    refine .row [.word "UNKNOWN", .sign '=', .sign '-', .word "1"] ?_ ?_ ?_ ?_
    · simp [beginsRow, fragment?_declarations]
    · simp [rowTokens?, startsApart, fragment?_declarations]
    · constructor <;> simp [Uses.all]
    · simp [Level, Token.depthAfter]
  have numbers : ReadsFine .all (c.tags.zipIdx.map fun entry =>
      ⟨0, [.name entry.1.1, " = ", .name (toString entry.2)]⟩) := by
    refine .map fun entry member => ?_
    have isWord := isWords entry.1 (List.fst_mem_of_mem_zipIdx member)
    have isNumber : IsWordText entry.2.repr := isWordText_toString entry.2
    refine .row [.word entry.1.1, .sign '=', .word (toString entry.2)] ?_ ?_ ?_ ?_
    · simp [beginsRow, fragment?_name isWord]
    · simp [rowTokens?, startsApart, fragment?_name isWord, fragment?_name isNumber, fragment?_readers]
    · constructor <;> simp [Uses.all]
    · simp [Level, Token.depthAfter]
  unfold body
  refine (ReadsFine.append ?_ (.cons ⟨_, .blank, List.forall_mem_nil _⟩ unknown)).append numbers
  split
  · exact .nil
  · exact texts

theorem statements_enumClass (isWord : IsWordText c.className)
    (isWords : ∀ entry ∈ c.tags, IsWordText entry.1) : (Declaration.enumClass c).Readable ∧
      (Declaration.enumClass c).statements = [c.classBlock] := by
  obtain ⟨read, body, _⟩ := readsFine_body isWords
  have head : Reads [⟨0, ["class ", .enumClass c.className, "(XsdEnum):"]⟩] [⟨0, c.classBlock.head⟩] := by
    refine .row ?_ ?_ ?_ ?_
    · simp [beginsRow, fragment?_declarations]
    · simp [rowTokens?, startsApart, classBlock, fragment?_enumClass isWord, fragment?_declarations]
    · simp [classBlock]
    · simp [Level, classBlock, Token.depthAfter]
  have whole : Reads (Declaration.enumClass c).lines (⟨0, c.classBlock.head⟩ :: read.map (shift 4)) :=
    head.append (body.indent 1)
  obtain ⟨readable, same⟩ := Reads.statements whole rfl
  refine ⟨readable, same.trans ?_⟩
  rw [blocks_indented, ← body.eq]
  rfl

end EnumClass

/-! ### Functions for documents -/

theorem spoken_intake {name parameter doc source root : String} (tokens : List Token)
    (isName : IsSmallWord name) (isSource : IsSmallWord source) (isRoot : IsWordText root)
    (isDoc : IsDocText doc)
    (isParameter : SourceText.fragment? parameter = some ⟨tokens, true, false, true⟩)
    (fine : Fine .all tokens) (level : Level tokens) :
    (intakeFunction name parameter doc source root).Spoken .all := by
  have text : ReadsFine .all [⟨0, [.doc doc]⟩] := by
    refine ⟨_, reads_doc isDoc, List.forall_mem_singleton.mpr ?_⟩
    constructor <;> simp [Uses.all]
  refine ⟨.inl rfl, isName, ⟨tokens ++ [Token.sign ',', .word "options", .sign ':', .word "DriverOptions",
    .sign '|', .word "None", .sign '=', .word "None"], ?_, fine.append ?_, level.append ?_⟩,
    ⟨[.word root, .sign '|', .word "None"], ?_, ?_, ?_⟩, text.cons (.row [.word "return", .word "document",
      .sign '.', .word name, .sign '(', .word source, .sign ',', .word "ROOT_ELEMENT", .sign ',', .word root,
      .sign ',', .word "options", .sign ')'] ?_ ?_ ?_ ?_)⟩
  · simp [intakeFunction, rowTokens?, startsApart, isParameter, fragment?_functions]
  · constructor <;> simp [Uses.all]
  · simp [Level, Token.depthAfter]
  · simp [intakeFunction, rowTokens?, startsApart, fragment?_recordClass isRoot, fragment?_items]
  · constructor <;> simp [Uses.all]
  · simp [Level, Token.depthAfter]
  · simp [beginsRow, fragment?_functions]
  · simp [rowTokens?, startsApart, fragment?_name isName.isWordText, fragment?_name isSource.isWordText,
      fragment?_recordClass isRoot, fragment?_functions, fragment?_method]
  · constructor <;> simp [Uses.all]
  · simp [Level, Token.depthAfter]

theorem small_documentWords : ∀ word ∈ ["read", "parse", "write", "dumps", "path", "xml"],
    IsSmallWord word := by
  have each : ∀ word ∈ ["read", "parse", "write", "dumps", "path", "xml"],
      word.toList.head?.any Char.isLower = true ∧ word.toList.all Identifier.isWordChar = true := by
    decide
  intro word member
  obtain ⟨first, parts⟩ := each word member
  obtain ⟨c, isFirst, lower⟩ := (Option.any_eq_true _ _).mp first
  exact ⟨⟨c, isFirst, .inl lower⟩, List.all_eq_true.mp parts⟩

theorem spoken_documentFunctions {root : String} (isRoot : IsWordText root) :
    ∀ m ∈ documentFunctions root, m.Spoken .all := by
  have small := small_documentWords
  simp only [List.forall_mem_cons] at small
  obtain ⟨read, parse, write, dumps, path, xml, _⟩ := small
  have rootFragment := fragment?_recordClass isRoot
  simp only [documentFunctions, List.forall_mem_cons]
  refine ⟨?_, ?_, ?_, ?_, List.forall_mem_nil _⟩
  · refine spoken_intake [.word "path", .sign ':', .word "PathLike"] read path isRoot
      (isDocText_of_chars rfl rfl) (by simp [fragment?_functions]) ?_ ?_
    · constructor <;> simp [Uses.all]
    · simp [Level, Token.depthAfter]
  · refine spoken_intake [.word "xml", .sign ':', .word "str", .sign '|', .word "bytes"] parse xml isRoot
      (isDocText_of_chars rfl rfl) (by simp [fragment?_functions]) ?_ ?_
    · constructor <;> simp [Uses.all]
    · simp [Level, Token.depthAfter]
  · refine ⟨.inl rfl, write, ⟨[.word "out", .sign ':', .word "TextIO", .sign ',', .word "root", .sign ':',
      .word root], ?_, ?_, ?_⟩, ⟨_, FieldSource.phrase_none⟩, .row [.word "document", .sign '.',
        .word "write", .sign '(', .word "out", .sign ',', .word "root", .sign ',', .word "ROOT_ELEMENT",
        .sign ')'] ?_ ?_ ?_ ?_⟩
    · simp [rowTokens?, startsApart, rootFragment, fragment?_functions]
    · constructor <;> simp [Uses.all]
    · simp [Level, Token.depthAfter]
    · simp [beginsRow, fragment?_functions]
    · simp [rowTokens?, startsApart, fragment?_functions]
    · constructor <;> simp [Uses.all]
    · simp [Level, Token.depthAfter]
  · refine ⟨.inl rfl, dumps, ⟨[.word "root", .sign ':', .word root], ?_, ?_, ?_⟩, ⟨[.word "str"], ?_, ?_, ?_⟩,
      .row [.word "return", .word "document", .sign '.', .word "dumps", .sign '(', .word "root", .sign ',',
        .word "ROOT_ELEMENT", .sign ')'] ?_ ?_ ?_ ?_⟩
    · simp [rowTokens?, startsApart, rootFragment, fragment?_functions]
    · constructor <;> simp [Uses.all]
    · simp [Level, Token.depthAfter]
    · simp [rowTokens?, startsApart, fragment?_items]
    · constructor <;> simp [Uses.all]
    · simp [Level, Token.depthAfter]
    · simp [beginsRow, fragment?_functions]
    · simp [rowTokens?, startsApart, fragment?_functions]
    · constructor <;> simp [Uses.all]
    · simp [Level, Token.depthAfter]

theorem statements_function {m : Method} (spoken : m.Spoken .all) (undecorated : m.decorators = []) :
    (Declaration.function m).Readable ∧ (Declaration.function m).statements = [definitionBlock m] := by
  obtain ⟨parameters, isParameters⟩ := spoken.parameters
  obtain ⟨result, isResult⟩ := spoken.result
  have reads := reads_method spoken.decorators spoken.name isParameters isResult spoken.body.reads
  rw [undecorated] at reads
  have own := methodBlocks_eq spoken
  rw [undecorated] at own
  exact ⟨(Reads.statements (d := .function m) reads rfl).1, own⟩

end XmlRecords.ModuleSource
