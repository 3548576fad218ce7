import XmlRecords.ModuleSource.Module
import XmlRecords.Proofs.FieldLines

/-!
The statements of record classes as they are read: the documentation, the annotated fields, and one
definition for each method.
-/

set_option autoImplicit false
set_option relaxedAutoImplicit false

namespace XmlRecords.ModuleSource

open SourceText

variable {u : Uses}

/-! ### Methods -/

/-- The first line of a method, by the tokens of its parameters and of its result. -/
def headTokens (name : String) (parameters result : List Token) : List Token :=
  [Token.word "def", .word name, .sign '('] ++ parameters ++ ([Token.sign ')', .sign '-', .sign '>'] ++ result) ++
    [Token.sign ':']

/-- A method whose lines can be read, and use nothing else. -/
structure Method.Spoken (u : Uses) (m : Method) : Prop where
  decorators : m.decorators = [] ∨ m.decorators = ["@classmethod"]
  name : IsSmallWord m.name
  parameters : ∃ tokens, Phrase u m.parameters tokens
  result : ∃ tokens, Phrase u m.result tokens
  body : ReadsFine u m.body

theorem reads_head {m : Method} {parameters result : List Token} (small : IsSmallWord m.name)
    (isParameters : Phrase u m.parameters parameters) (isResult : Phrase u m.result result) :
    Reads [⟨0, Piece.plain "def " :: .name m.name :: .plain "(" :: m.parameters ++ Piece.plain ") -> " :: m.result ++
      [Piece.plain ":"]⟩] [⟨0, headTokens m.name parameters result⟩] ∧
      Fine u (headTokens m.name parameters result) := by
  have opened : rowTokens? (.plain "def " :: .name m.name :: .plain "(" :: m.parameters) =
      some ([Token.word "def", .word m.name, .sign '('] ++ parameters) := by
    simp [rowTokens?, startsApart, fragment?_name small.isWordText, isParameters.row, fragment?_method]
  have between : rowTokens? (.plain ") -> " :: m.result) =
      some ([Token.sign ')', .sign '-', .sign '>'] ++ result) := by
    simp [rowTokens?, isResult.row, fragment?_method]
  have fine : Fine u (headTokens m.name parameters result) := by
    refine ((Fine.append ?_ isParameters.fine).append (Fine.append ?_ isResult.fine)).append ?_
    · constructor <;> simp [names, calls, callee?, small.isCommon, isCommon_accessors]
    · constructor <;> simp [names, calls]
    · constructor <;> simp [names, calls]
  refine ⟨.row ?_ (rowTokens?_append (rowTokens?_append opened between ?_) ?_ ?_) fine.unmarked ?_, fine⟩
  · simp [beginsRow, fragment?_method]
  · simp [startsApart, fragment?_method]
  · simp [rowTokens?, startsApart, fragment?_method]
  · simp [startsApart, fragment?_method]
  · intro depth
    simp [headTokens, isParameters.level.foldl, isResult.level.foldl, Token.depthAfter]

def decoratorLines : List String → List SourceText.Line
  | [] => []
  | _ => [⟨0, [.sign '@', .word "classmethod"]⟩]

theorem reads_decorators {decorators : List String}
    (known : decorators = [] ∨ decorators = ["@classmethod"]) :
    Reads (decorators.map (Line.plain 0)) (decoratorLines decorators) := by
  rcases known with rfl | rfl
  · exact .nil
  · refine .row ?_ ?_ ?_ ?_
    · simp [beginsRow, fragment?_method]
    · simp [rowTokens?, startsApart, fragment?_method]
    · simp
    · simp [Level, Token.depthAfter]

theorem reads_method {m : Method} {parameters result : List Token} {body : List SourceText.Line}
    (decorators : m.decorators = [] ∨ m.decorators = ["@classmethod"]) (small : IsSmallWord m.name)
    (isParameters : Phrase u m.parameters parameters) (isResult : Phrase u m.result result)
    (isBody : Reads m.body body) :
    Reads m.lines (decoratorLines m.decorators ++ [⟨0, headTokens m.name parameters result⟩] ++
      body.map (shift 4)) :=
  ((reads_decorators decorators).append (reads_head small isParameters isResult).1).append (isBody.indent 1)

theorem Method.Spoken.readsFine {m : Method} (h : m.Spoken u) : ReadsFine u m.lines := by
  obtain ⟨decorators, small, ⟨parameters, isParameters⟩, ⟨result, isResult⟩, body, isBody, fine⟩ := h
  refine ⟨_, reads_method decorators small isParameters isResult isBody, ?_⟩
  rw [List.forall_mem_append, List.forall_mem_append, List.forall_mem_singleton, List.forall_mem_map]
  refine ⟨⟨fun l member => ?_, (reads_head small isParameters isResult).2⟩, fine⟩
  rcases decorators with none | one
  · rw [none] at member
    cases member
  · rw [one] at member
    obtain rfl := List.mem_singleton.mp member
    constructor <;> simp [names, calls, isCommon_readers]

/-! ### Accessors -/

namespace FieldSource

variable {f : FieldSource}

theorem phrase_self : Phrase u ["self"] [.word "self"] := by
  refine ⟨?_, ?_, fun _ => rfl⟩
  · simp [rowTokens?, startsApart, fragment?_method]
  · constructor <;> simp [names, calls, isCommon_accessors]

theorem phrase_bool : Phrase u ["bool"] [.word "bool"] := by
  refine ⟨?_, ?_, fun _ => rfl⟩
  · simp [rowTokens?, startsApart, fragment?_items]
  · constructor <;> simp [names, calls, isCommon_items]

theorem spoken_accessor {start : String} {result : List Piece} {body : List Line}
    (first : ∃ c, start.toList.head? = some c ∧ c.isLower = true)
    (word : ∀ c ∈ start.toList, Identifier.isWordChar c = true) (h : f.Worded u)
    (isResult : ∃ tokens, Phrase u result tokens) (isBody : ReadsFine u body) :
    (accessor (start ++ f.name) result body).Spoken u := by
  obtain ⟨c, isFirst, lower⟩ := first
  exact ⟨.inl rfl, IsSmallWord.append ⟨⟨c, isFirst, .inl lower⟩, word⟩ h.name.word, ⟨_, phrase_self⟩,
    isResult, isBody⟩

theorem readsFine_return (h : f.Worded u) :
    ReadsFine u [⟨0, ["return self.", .name f.name]⟩] := by
  refine .row [.word "return", .word "self", .sign '.', .word f.name] ?_ ?_ ?_ ?_
  · simp [beginsRow, fragment?_accessors]
  · simp [rowTokens?, startsApart, fragment?_name h.name.isWordText, fragment?_accessors]
  · constructor <;> simp [names, calls, isCommon_accessors]
  · simp [Level, Token.depthAfter]

theorem spoken_hasAccessor (h : f.Worded u) : f.hasAccessor.Spoken u := by
  refine spoken_accessor ⟨'h', by decide, by decide⟩ (List.all_eq_true.mp (by decide)) h ⟨_, phrase_bool⟩ ?_
  have isWord := h.name.isWordText
  cases f.occurrence with
  | once =>
    refine .row [.word "return", .word "True"] ?_ ?_ ?_ fun _ => rfl
    · simp [beginsRow, fragment?_accessors]
    · simp [rowTokens?, startsApart, fragment?_accessors]
    · constructor <;> simp [names, calls, isCommon_accessors]
  | optional =>
    refine .row [.word "return", .word "self", .sign '.', .word f.name, .word "is", .word "not",
      .word "None"] ?_ ?_ ?_ fun _ => rfl
    · simp [beginsRow, fragment?_accessors]
    · simp [rowTokens?, startsApart, fragment?_name isWord, fragment?_accessors]
    · constructor <;> simp [names, calls, isCommon_accessors, isCommon_items]
  | repeated =>
    refine .row [.word "return", .word "len", .sign '(', .word "self", .sign '.', .word f.name, .sign ')',
      .sign '>', .word "0"] ?_ ?_ ?_ ?_
    · simp [beginsRow, fragment?_accessors]
    · simp [rowTokens?, startsApart, fragment?_name isWord, fragment?_accessors]
    · constructor <;> simp [names, calls, callee?, isCommon_accessors]
    · simp [Level, Token.depthAfter]

def absentLines (record field : String) : List SourceText.Line := [
  ⟨0, [.word "if", .word "self", .sign '.', .word field, .word "is", .word "None", .sign ':']⟩,
  ⟨4, [.word "raise", .word "FieldNotPresentError", .sign '(', .literal (Text.writtenPoints record),
    .sign ',', .literal (Text.writtenPoints field), .sign ')']⟩,
  ⟨0, [.word "return", .word "self", .sign '.', .word field]⟩]

theorem reads_absent (h : f.Worded u) (record : String) (optional : f.occurrence = .optional) :
    Reads (f.getAccessor record).body (absentLines record f.name) ∧
      ∀ l ∈ absentLines record f.name, Fine u l.tokens := by
  have isWord := h.name.isWordText
  have body : (f.getAccessor record).body = [⟨0, ["if self.", .name f.name, " is None:"]⟩,
      ⟨1, ["raise FieldNotPresentError(", .literal record, ", ", .literal f.name, ")"]⟩,
      ⟨0, ["return self.", .name f.name]⟩] := by
    rw [getAccessor, optional]
    rfl
  rw [body]
  constructor
  · refine .cons (.row ?_ ?_ ?_ ?_) (.cons (.row ?_ ?_ ?_ ?_) (.row ?_ ?_ ?_ ?_))
    · simp [beginsRow, fragment?_accessors]
    · simp [rowTokens?, startsApart, fragment?_name isWord, fragment?_accessors]
    · simp
    · simp [Level, Token.depthAfter]
    · simp [beginsRow, fragment?_accessors]
    · simp [rowTokens?, startsApart, fragment?_text, fragment?_accessors]
    · simp
    · simp [Level, Token.depthAfter]
    · simp [beginsRow, fragment?_accessors]
    · simp [rowTokens?, startsApart, fragment?_name isWord, fragment?_accessors]
    · simp
    · simp [Level, Token.depthAfter]
  · simp only [absentLines, List.forall_mem_cons]
    refine ⟨?_, ?_, ?_, List.forall_mem_nil _⟩
    · constructor <;> simp [names, calls, isCommon_accessors, isCommon_items]
    · constructor <;> simp [names, calls, callee?, isCommon_accessors]
    · constructor <;> simp [names, calls, isCommon_accessors]

theorem spoken_getAccessor (h : f.Worded u) (record : String) : (f.getAccessor record).Spoken u := by
  obtain ⟨item, isItem⟩ := h.item
  have word : ∀ c ∈ "get_".toList, Identifier.isWordChar c = true := List.all_eq_true.mp (by decide)
  have first : ∃ c, "get_".toList.head? = some c ∧ c.isLower = true := ⟨'g', by decide, by decide⟩
  unfold getAccessor
  cases occurrence : f.occurrence with
  | optional =>
    have body := reads_absent h record occurrence
    rw [getAccessor, occurrence] at body
    exact spoken_accessor first word h ⟨_, isItem⟩ ⟨_, body⟩
  | _ => exact spoken_accessor first word h ⟨_, phrase_annotation isItem⟩ (readsFine_return h)

theorem spoken_firstAccessor (h : f.Worded u) : f.firstAccessor.Spoken u := by
  obtain ⟨item, isItem⟩ := h.item
  have isWord := h.name.isWordText
  refine spoken_accessor ⟨'g', by decide, by decide⟩ (List.all_eq_true.mp (by decide)) h
    ⟨_, phrase_optional isItem⟩ (.row [.word "return", .word "self", .sign '.', .word f.name, .sign '[',
      .word "0", .sign ']', .word "if", .word "self", .sign '.', .word f.name, .word "else", .word "None"]
      ?_ ?_ ?_ ?_)
  · simp [beginsRow, fragment?_accessors]
  · simp [rowTokens?, startsApart, fragment?_name isWord, fragment?_accessors]
  · constructor <;> simp [names, calls, isCommon_accessors, isCommon_items]
  · simp [Level, Token.depthAfter]

theorem spoken_accessors (h : f.Worded u) (record : String) : ∀ m ∈ f.accessors record, m.Spoken u := by
  intro m member
  rcases List.mem_append.mp member with always | repeated
  · rcases List.mem_pair.mp always with rfl | rfl
    · exact spoken_hasAccessor h
    · exact spoken_getAccessor h record
  · split at repeated
    · obtain rfl := List.mem_singleton.mp repeated
      exact spoken_firstAccessor h
    · cases repeated

end FieldSource

/-! ### Reading and writing -/

namespace RecordClass

variable {c : RecordClass}

theorem if_small : IsSmallWord "if" :=
  ⟨⟨'i', by decide, .inl (by decide)⟩, List.all_eq_true.mp (by decide)⟩

theorem elif_small : IsSmallWord "elif" :=
  ⟨⟨'e', by decide, .inl (by decide)⟩, List.all_eq_true.mp (by decide)⟩

theorem readsFine_elementReads (worded : ∀ f ∈ c.elements, f.Worded u) :
    ReadsFine u c.elementReads := by
  have loop : ReadsFine u [.plain 0 "for child in nodes.iter_children(node):"] := by
    refine .row [.word "for", .word "child", .word "in", .word "nodes", .sign '.', .word "iter_children",
      .sign '(', .word "node", .sign ')', .sign ':'] ?_ ?_ ?_ ?_
    · simp [beginsRow, fragment?_readers]
    · simp [rowTokens?, startsApart, fragment?_readers]
    · constructor <;> simp [names, calls, callee?, codecMethods, isCommon_readers]
    · simp [Level, Token.depthAfter]
  have tag : ReadsFine u [.plain 1 "tag = nodes.local_name(child)"] := by
    refine .row [.word "tag", .sign '=', .word "nodes", .sign '.', .word "local_name", .sign '(',
      .word "child", .sign ')'] ?_ ?_ ?_ ?_
    · simp [beginsRow, fragment?_readers]
    · simp [rowTokens?, startsApart, fragment?_readers]
    · constructor <;> simp [names, calls, callee?, codecMethods, isCommon_readers]
    · simp [Level, Token.depthAfter]
  have tests : ReadsFine u (childReads c.elements) := by
    generalize c.elements = fs at worded
    cases fs with
    | nil => exact .nil
    | cons f fs =>
      obtain ⟨first, others⟩ := List.forall_mem_cons.mp worded
      exact (FieldSource.readsFine_childRead first if_small).append
        (.flatMap fun g member => FieldSource.readsFine_childRead (others g member) elif_small)
  unfold elementReads
  split
  · exact .nil
  · exact (((ReadsFine.map fun f member => FieldSource.readsFine_elementStart (worded f member)).append
      (loop.cons tag)).append (tests.indent 1)).append
        (.flatMap fun f member => FieldSource.readsFine_recordFill (worded f member))

def argumentTokens (f : FieldSource) : List Token :=
  if f.isRepeated then
    [.word f.name, .sign '=', .word "tuple", .sign '(', .word f.variableName, .sign ')', .sign ',']
  else [.word f.name, .sign '=', .word f.variableName, .sign ',']

theorem argument_spec {f : FieldSource} (h : f.Worded u) :
    beginsRow f.argument.pieces = true ∧ rowTokens? f.argument.pieces = some (argumentTokens f) ∧
      Fine u (argumentTokens f) ∧ Level (argumentTokens f) := by
  have isWord := h.name.isWordText
  have kept := FieldSource.variableName_small h
  unfold FieldSource.argument argumentTokens
  split
  · refine ⟨?_, ?_, ?_, ?_⟩
    · simp [beginsRow, fragment?_name isWord]
    · simp [rowTokens?, startsApart, fragment?_name isWord, fragment?_name kept.isWordText,
        fragment?_readers]
    · constructor <;> simp [names, calls, callee?, h.name.isCommon, kept.isCommon, isCommon_items]
    · simp [Level, Token.depthAfter]
  · refine ⟨?_, ?_, ?_, ?_⟩
    · simp [beginsRow, fragment?_name isWord]
    · simp [rowTokens?, startsApart, fragment?_name isWord, fragment?_name kept.isWordText,
        fragment?_readers]
    · constructor <;> simp [names, calls, h.name.isCommon, kept.isCommon]
    · simp [Level, Token.depthAfter]

theorem readsFine_construction (worded : ∀ f ∈ c.fields, f.Worded u) :
    ReadsFine u c.construction := by
  unfold construction
  split
  · refine .row [.word "return", .word "cls", .sign '(', .sign ')'] ?_ ?_ ?_ ?_
    · simp [beginsRow, fragment?_readers]
    · simp [rowTokens?, startsApart, fragment?_readers]
    · constructor <;> simp [names, calls, callee?, isCommon_accessors, isCommon_readers]
    · simp [Level, Token.depthAfter]
  · refine .bracketed [.word "return", .word "cls", .sign '('] [.sign ')'] argumentTokens ⟨?_, ?_, ?_⟩
      ⟨?_, ?_, ?_⟩ (fun f member => argument_spec (worded f member)) fun d => ⟨?_, ?_⟩
    · simp [beginsRow, fragment?_readers]
    · simp [rowTokens?, startsApart, fragment?_readers]
    · constructor <;> simp [names, calls, callee?, isCommon_accessors, isCommon_readers]
    · simp [beginsRow, fragment?_accessors]
    · simp [rowTokens?, startsApart, fragment?_accessors]
    · constructor <;> simp [names, calls]
    · simp [Token.depthAfter]
    · simp [Token.depthAfter]

theorem spoken_readMethod (className : IsWordText c.className) (known : u.classes c.className)
    (worded : ∀ f ∈ c.fields, f.Worded u) : c.readMethod.Spoken u := by
  have read : IsSmallWord "read" := ⟨⟨'r', by decide, .inl (by decide)⟩, List.all_eq_true.mp (by decide)⟩
  obtain ⟨attributes, elements⟩ := List.forall_mem_append.mp worded
  refine ⟨.inr rfl, read, ⟨[.word "cls", .sign ',', .word "node", .sign ':', .word "etree", .sign '.',
    .word "_Element"], ?_, ?_, ?_⟩, ⟨[.word c.className], ?_, ?_, fun _ => rfl⟩, ?_⟩
  · simp [readMethod, rowTokens?, startsApart, fragment?_readers]
  · constructor <;> simp [names, calls, isCommon_readers]
  · simp [Level, Token.depthAfter]
  · simp [readMethod, rowTokens?, startsApart, fragment?_recordClass className]
  · constructor <;> simp [names, calls, known]
  · exact ((ReadsFine.flatMap fun f member => (FieldSource.readsFine_attributeRead (attributes f member)).1).append
      (readsFine_elementReads elements)).append (readsFine_construction worded)

theorem spoken_writeMethod (worded : ∀ f ∈ c.fields, f.Worded u) : c.writeMethod.Spoken u := by
  have write : IsSmallWord "write" := ⟨⟨'w', by decide, .inl (by decide)⟩, List.all_eq_true.mp (by decide)⟩
  obtain ⟨attributes, elements⟩ := List.forall_mem_append.mp worded
  have indent : ReadsFine u [.plain 0 "indent = writer.INDENT * depth"] := by
    refine .row [.word "indent", .sign '=', .word "writer", .sign '.', .word "INDENT", .sign '*',
      .word "depth"] ?_ ?_ ?_ ?_
    · simp [beginsRow, fragment?_writers]
    · simp [rowTokens?, startsApart, fragment?_writers]
    · constructor <;> simp [names, calls, isCommon_writers]
    · simp [Level, Token.depthAfter]
  have output (text : String) (isFormatted : Bool) (points : List Nat)
      (isFragment : SourceText.fragment? text = some ⟨[.word "out", .sign '.', .word "write", .sign '(',
        literalToken isFormatted points, .sign ')'], false, false, true⟩) : ReadsFine u [.plain 0 text] := by
    refine .row [.word "out", .sign '.', .word "write", .sign '(', literalToken isFormatted points,
      .sign ')'] ?_ ?_ ?_ ?_
    · simp [beginsRow, isFragment]
    · simp [rowTokens?, startsApart, isFragment]
    · cases isFormatted <;> constructor <;>
        simp [literalToken, names, calls, callee?, codecMethods, isCommon_writers]
    · cases isFormatted <;> simp [literalToken, Level, Token.depthAfter]
  refine ⟨.inl rfl, write, ⟨[.word "self", .sign ',', .word "out", .sign ':', .word "TextIO", .sign ',',
    .word "name", .sign ':', .word "str", .sign ',', .word "depth", .sign ':', .word "int", .sign '=',
    .word "0"], ?_, ?_, ?_⟩, ⟨_, FieldSource.phrase_none⟩, ?_⟩
  · simp [writeMethod, rowTokens?, startsApart, fragment?_writers]
  · constructor <;> simp [names, calls, isCommon_items, isCommon_accessors, isCommon_writers]
  · simp [Level, Token.depthAfter]
  · obtain ⟨_, _, _, _, _, _, _, _, _, _, _, _, opens, ends, closes⟩ := fragment?_writers
    exact ((((indent.cons (output _ true _ opens)).append
      (.flatMap fun f member => FieldSource.readsFine_attributeWrite (attributes f member))).append
      (output _ false _ ends)).append
      (.flatMap fun f member => FieldSource.readsFine_elementWrite (elements f member))).append
      (output _ true _ closes)

/-! ### The body of a class -/

theorem spoken_methods (className : IsWordText c.className) (known : u.classes c.className)
    (worded : ∀ f ∈ c.fields, f.Worded u) : ∀ m ∈ c.methods, m.Spoken u := by
  intro m member
  rcases List.mem_append.mp member with accessor | last
  · obtain ⟨f, inside, isAccessor⟩ := List.mem_flatMap.mp accessor
    exact FieldSource.spoken_accessors (worded f inside) c.name m isAccessor
  · rcases List.mem_pair.mp last with rfl | rfl
    · exact spoken_readMethod className known worded
    · exact spoken_writeMethod worded

def docLine (c : RecordClass) : SourceText.Line := ⟨0, [.literal (docPoints c.doc)]⟩

def nameLine (c : RecordClass) : SourceText.Line :=
  ⟨0, [.word "__xsd_name__", .sign '=', .literal (Text.writtenPoints c.name)]⟩

def fieldLine (f : FieldSource) : SourceText.Line :=
  ⟨0, .word f.name :: .sign ':' ::
    FieldSource.annotationTokens f.occurrence ((rowTokens? f.item).getD [])⟩

/-- A class whose documentation and names can be read, and may be used. -/
structure Worded (u : Uses) (c : RecordClass) : Prop where
  doc : IsDocText c.doc
  className : IsWordText c.className
  known : u.classes c.className
  fields : ∀ f ∈ c.fields, f.Worded u

theorem reads_fieldLine {f : FieldSource} (h : f.Worded u) :
    Reads [⟨0, .name f.name :: .plain ": " :: f.annotation⟩] [fieldLine f] ∧
      Fine u (fieldLine f).tokens := by
  obtain ⟨tokens, item⟩ := h.item
  have phrase := FieldSource.phrase_annotation item
  have isWord := h.name.isWordText
  have fine : Fine u (.word f.name :: .sign ':' :: FieldSource.annotationTokens f.occurrence tokens) := by
    refine @Fine.append u [.word f.name, .sign ':'] _ ?_ phrase.fine
    constructor <;> simp [names, calls, h.name.isCommon]
  rw [fieldLine, item.row, Option.getD_some]
  refine ⟨.row ?_ ?_ fine.unmarked ?_, fine⟩
  · simp [beginsRow, fragment?_name isWord]
  · simp [rowTokens?, startsApart, fragment?_name isWord, phrase.row, fragment?_method]
  · intro depth
    simp [phrase.level.foldl, Token.depthAfter]

/-- The lines of a class body: its documentation, its name, its fields and its methods. -/
theorem reads_body (h : c.Worded u) :
    Reads c.body ([c.docLine, c.nameLine] ++ c.fields.map fieldLine ++
      c.methods.flatMap fun m => readLines m.lines) ∧
    ∀ l ∈ [c.docLine, c.nameLine] ++ c.fields.map fieldLine ++
      c.methods.flatMap (fun m => readLines m.lines), Fine u l.tokens := by
  have spoken := spoken_methods h.className h.known h.fields
  have doc : Reads [⟨0, [.doc c.doc]⟩] [c.docLine] := reads_doc h.doc
  have name : Reads [⟨0, ["__xsd_name__ = ", .literal c.name]⟩] [c.nameLine] := by
    refine .row ?_ ?_ ?_ ?_
    · simp [beginsRow, fragment?_declarations]
    · simp [rowTokens?, startsApart, fragment?_text, fragment?_declarations]
    · simp
    · simp [Level, Token.depthAfter]
  have fields : Reads (if c.fields.isEmpty then [] else .blank :: c.annotations.map
      fun entry => ⟨0, .name entry.1 :: .plain ": " :: entry.2⟩) (c.fields.map fieldLine) := by
    split
    · rename_i empty
      rw [List.isEmpty_iff.mp empty]
      exact .nil
    · rw [annotations, List.map_map]
      exact Reads.blank.append (.map fun f member => (reads_fieldLine (h.fields f member)).1)
  have methods : Reads (c.methods.flatMap fun m => .blank :: m.lines)
      (c.methods.flatMap fun m => readLines m.lines) := by
    refine .flatMap fun m member => ?_
    obtain ⟨read, reads, _⟩ := (spoken m member).readsFine
    rw [reads.eq]
    exact Reads.blank.append reads
  refine ⟨((doc.append (Reads.blank.append name)).append fields).append methods, ?_⟩
  rw [List.forall_mem_append, List.forall_mem_append, List.forall_mem_map, List.forall_mem_flatMap]
  refine ⟨⟨?_, fun f member => (reads_fieldLine (h.fields f member)).2⟩, fun m member => ?_⟩
  · rw [List.forall_mem_cons, List.forall_mem_singleton]
    refine ⟨?_, ?_⟩
    · constructor <;> simp [docLine, names, calls]
    · constructor <;> simp [nameLine, names, calls, isCommon_writers]
  · obtain ⟨read, reads, fine⟩ := (spoken m member).readsFine
    rwa [reads.eq]

end RecordClass

end XmlRecords.ModuleSource
