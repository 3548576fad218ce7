import XmlRecords.ModuleSource.FieldSource
import XmlRecords.Proofs.ModuleNames
import XmlRecords.Proofs.Phrases
import XmlRecords.Proofs.SafeNames

/-!
The lines of a field in a record class, as they are read: its annotation, its accessors, and the lines that
read and write it.
-/

set_option autoImplicit false
set_option relaxedAutoImplicit false

namespace XmlRecords.SourceText

open Text

/-! ### Words -/

/-- Letters, digits and underscores of ASCII, of which the first is a small letter or an underscore. -/
structure IsSmallWord (text : String) : Prop where
  start : ∃ c, text.toList.head? = some c ∧ (c.isLower = true ∨ c = '_')
  word : ∀ c ∈ text.toList, Identifier.isWordChar c = true

namespace IsSmallWord

variable {text : String}

theorem append (h : IsSmallWord text) {rest : String}
    (word : ∀ c ∈ rest.toList, Identifier.isWordChar c = true) : IsSmallWord (text ++ rest) := by
  obtain ⟨⟨c, first, small⟩, own⟩ := h
  refine ⟨⟨c, ?_, small⟩, ?_⟩
  · rw [String.toList_append, List.head?_append, first, Option.some_or]
  · rw [String.toList_append]
    exact List.forall_mem_append.mpr ⟨own, word⟩

theorem isWordText (h : IsSmallWord text) : IsWordText text := by
  obtain ⟨⟨c, first, small⟩, word⟩ := h
  refine ⟨?_, fun d member => by rw [isWordPart, word d member, Bool.true_or]⟩
  cases shape : text.toList with
  | nil => simp [shape] at first
  | cons d ds =>
    obtain rfl : d = c := by simpa [shape] using first
    have begins : d.isAlpha = true ∨ d = '_' := by
      rcases small with lower | underscore
      · exact .inl ((Bool.or_eq_true _ _).mpr (.inr lower))
      · exact .inr underscore
    rcases begins with alpha | underscore
    · simp [isWord, alpha]
    · simp [isWord, underscore]

theorem isCommon (h : IsSmallWord text) : isCommon text = true := by
  obtain ⟨⟨c, first, small⟩, word⟩ := h
  have ascii : text.toList.all (·.toNat < 0x80) = true := List.all_eq_true.mpr fun d member =>
    decide_eq_true (Identifier.toNat_lt_of_isWordChar (word d member))
  have noCapital : c.isUpper = false := by
    rcases small with lower | rfl
    · have low : 'a'.toNat ≤ c.toNat := ((isLower_iff c).mp lower).1
      rw [Bool.eq_false_iff]
      intro upper
      have high : c.toNat ≤ 'Z'.toNat := UInt32.le_iff_toNat_le.mp (Identifier.isUpper_iff.mp upper).2
      exact absurd (low.trans high) (by decide)
    · decide
  simp [SourceText.isCommon, ascii, first, noCapital]

end IsSmallWord

end XmlRecords.SourceText

namespace XmlRecords.ModuleSource

open SourceText

/-! ### Names and codecs -/

theorem fragment?_name {word : String} (isWord : IsWordText word) :
    (Piece.name word).fragment? = some ⟨[.word word], true, false, true⟩ := fragment?_word isWord

theorem fragment?_recordClass {className : String} (isWord : IsWordText className) :
    (Piece.recordClass className).fragment? = some ⟨[.word className], true, false, true⟩ :=
  fragment?_word isWord

theorem fragment?_enumClass {className : String} (isWord : IsWordText className) :
    (Piece.enumClass className).fragment? = some ⟨[.word className], true, false, true⟩ :=
  fragment?_word isWord

theorem fragment?_text (text : String) : (Piece.literal text).fragment? =
    some ⟨[.literal (Text.writtenPoints text)], text.toList.isEmpty, false, true⟩ := fragment?_literal text

def builtInWord : Primitive → String
  | .bool => "BOOL"
  | .int32 => "INT32"
  | .int64 => "INT64"
  | .uint32 => "UINT32"
  | .string => "STRING"
  | .float => "FLOAT"
  | .double => "DOUBLE"

def CodecName.tokens : CodecName → List Token
  | .builtIn p => [.word "values", .sign '.', .word (builtInWord p)]
  | .constant name => [.word name]

def CodecName.Fit (u : Uses) : CodecName → Prop
  | .builtIn _ => True
  | .constant name => IsSmallWord name ∧ u.codecs name

variable {u : Uses}

theorem fragment?_codec {codec : CodecName} (fit : codec.Fit u) :
    (Piece.codec codec).fragment? = some ⟨codec.tokens, true, false, true⟩ := by
  cases codec with
  | builtIn p =>
    have read : SourceText.fragment? (builtInName p) =
        some ⟨[.word "values", .sign '.', .word (builtInWord p)], true, false, true⟩ := by
      cases p <;> simp [builtInName, builtInWord, fragment?_builtIn]
    exact read
  | constant name => exact fragment?_word fit.1.isWordText

theorem fine_call {codec : CodecName} (fit : codec.Fit u) (method : String) :
    Fine u (codec.tokens ++ [Token.sign '.', .word method, .sign '(']) := by
  cases codec with
  | builtIn p => constructor <;> simp [CodecName.tokens, names, calls, callee?, isCommon_items]
  | constant name =>
    obtain ⟨small, known⟩ := fit
    constructor <;> simp +contextual [CodecName.tokens, names, calls, callee?, small.isCommon, known]


namespace FieldSource

/-- A field whose name, class or codec can be read, and may be used. -/
structure Worded (u : Uses) (f : FieldSource) : Prop where
  name : IsSmallWord f.name
  item : ∃ tokens, Phrase u f.item tokens
  begins : beginsRow f.item = true
  codec : ∀ codec default, f.content = .simple codec default → codec.Fit u
  record : ∀ className, f.content = .record className → IsWordText className ∧ u.classes className

/-! ### Annotations and values -/

/-- The tokens of the annotation of a field, by those of its items. -/
def annotationTokens (occurrence : Occurrence) (item : List Token) : List Token :=
  match occurrence with
  | .once => item
  | .optional => item ++ [Token.sign '|', .word "None"]
  | .repeated =>
    [Token.word "tuple", .sign '['] ++ item ++ [Token.sign ',', .sign '.', .sign '.', .sign '.', .sign ']']

variable {f : FieldSource}

theorem phrase_optional {item : List Piece} {tokens : List Token} (h : Phrase u item tokens) :
    Phrase u (item ++ [Piece.plain " | None"]) (tokens ++ [Token.sign '|', .word "None"]) := by
  refine ⟨rowTokens?_append h.row ?_ ?_, h.fine.append ?_, h.level.append ?_⟩
  · simp [rowTokens?, startsApart, fragment?_items]
  · simp [startsApart, fragment?_items]
  · constructor <;> simp [names, calls, isCommon_items]
  · simp [Level, Token.depthAfter]

theorem phrase_tuple {item : List Piece} {tokens : List Token} (h : Phrase u item tokens) :
    Phrase u (Piece.plain "tuple[" :: item ++ [Piece.plain ", ...]"])
      ([Token.word "tuple", .sign '['] ++ tokens ++
        [Token.sign ',', .sign '.', .sign '.', .sign '.', .sign ']']) := by
  have opened : rowTokens? (Piece.plain "tuple[" :: item) = some ([Token.word "tuple", .sign '['] ++ tokens) := by
    simp [rowTokens?, h.row, fragment?_items]
  refine ⟨rowTokens?_append opened ?_ ?_, (Fine.append ?_ h.fine).append ?_, ?_⟩
  · simp [rowTokens?, startsApart, fragment?_items]
  · simp [startsApart, fragment?_items]
  · constructor <;> simp [names, calls, isCommon_items]
  · constructor <;> simp [names, calls]
  · intro depth
    simp [h.level.foldl, Token.depthAfter]

theorem phrase_annotation {tokens : List Token} (h : Phrase u f.item tokens) :
    Phrase u f.annotation (annotationTokens f.occurrence tokens) := by
  unfold annotation annotationTokens
  cases f.occurrence with
  | once => exact h
  | optional => exact phrase_optional h
  | repeated => exact phrase_tuple h

theorem beginsRow_append {pieces : List Piece} (begins : beginsRow pieces = true) (rest : List Piece) :
    beginsRow (pieces ++ rest) = true := by
  cases pieces with
  | nil => cases begins
  | cons p pieces => exact begins

theorem beginsRow_annotation (begins : beginsRow f.item = true) : beginsRow f.annotation = true := by
  unfold annotation
  cases f.occurrence with
  | once => exact begins
  | optional => exact beginsRow_append begins _
  | repeated => simp [beginsRow, fragment?_items]

theorem phrase_call {codec : CodecName} (fit : codec.Fit u) (method : String) {opening : String}
    {arguments : List Piece} (tokens : List Token)
    (opens : SourceText.fragment? opening = some ⟨[.sign '.', .word method, .sign '('], false, true, true⟩)
    (isRow : rowTokens? arguments = some (tokens ++ [Token.sign ')'])) (fine : Fine u tokens)
    (level : Level tokens) :
    Phrase u (.codec codec :: .plain opening :: arguments)
      (codec.tokens ++ [Token.sign '.', .word method, .sign '('] ++ (tokens ++ [Token.sign ')'])) := by
  refine ⟨?_, (fine_call fit method).append (fine.append ?_), fun depth => ?_⟩
  · simp [rowTokens?, startsApart, fragment?_codec fit, opens, isRow]
  · constructor <;> simp [names, calls]
  · cases codec <;> simp [CodecName.tokens, level.foldl, Token.depthAfter]

theorem phrase_none : Phrase u ["None"] [.word "None"] := by
  refine ⟨?_, ?_, fun _ => rfl⟩
  · simp [rowTokens?, startsApart, fragment?_items]
  · constructor <;> simp [names, calls, isCommon_items]

theorem phrase_empty : Phrase u ["[]"] [.sign '[', .sign ']'] := by
  refine ⟨?_, ?_, ?_⟩
  · simp [rowTokens?, startsApart, fragment?_readers]
  · constructor <;> simp [names, calls]
  · simp [Level, Token.depthAfter]

theorem phrase_missing (h : f.Worded u) : ∃ tokens, Phrase u f.missing tokens := by
  unfold missing
  cases content : f.content with
  | simple codec default =>
    have fit := h.codec codec default content
    have parsed (text : String) :
        ∃ tokens, Phrase u [.codec codec, ".parse(", .literal text, ")"] tokens := by
      refine ⟨_, phrase_call fit "parse" [.literal (Text.writtenPoints text)] (by simp [fragment?_readers])
        ?_ ?_ fun _ => rfl⟩
      · simp [rowTokens?, startsApart, fragment?_text, fragment?_accessors]
      · constructor <;> simp [names, calls]
    have zero : ∃ tokens, Phrase u [.codec codec, ".zero()"] tokens := by
      refine ⟨codec.tokens ++ [Token.sign '.', .word "zero", .sign '('] ++ [Token.sign ')'], ?_, ?_, ?_⟩
      · simp [rowTokens?, startsApart, fragment?_codec fit, fragment?_readers]
      · refine (fine_call fit "zero").append ?_
        constructor <;> simp [names, calls]
      · intro depth
        cases codec <;> simp [CodecName.tokens, Token.depthAfter]
    cases f.occurrence with
    | optional => exact ⟨_, phrase_none⟩
    | _ =>
      cases default with
      | none => exact zero
      | some text => exact parsed text
  | record className =>
    obtain ⟨isWord, known⟩ := h.record className content
    have empty : ∃ tokens, Phrase u [.recordClass className, ".empty()"] tokens := by
      refine ⟨[.word className, .sign '.', .word "empty", .sign '(', .sign ')'], ?_, ?_, ?_⟩
      · simp [rowTokens?, startsApart, fragment?_recordClass isWord, fragment?_readers]
      · constructor <;> simp [names, calls, callee?, codecMethods, known]
      · simp [Level, Token.depthAfter]
    cases f.occurrence with
    | optional => exact ⟨_, phrase_none⟩
    | _ => exact empty

/-- The value that a reader takes from a text or a child, by a call of the codec if there is one. -/
theorem phrase_valueRead (h : f.Worded u) {text : String} (small : IsSmallWord text) :
    ∃ tokens, Phrase u (f.valueRead text) tokens ∧ ∀ codec default, f.content = .simple codec default →
      codec.tokens ++ [Token.sign '.', .word "parse", .sign '('] <+: tokens := by
  unfold valueRead
  cases content : f.content with
  | simple codec default =>
    have fit := h.codec codec default content
    obtain ⟨tokens, missing⟩ := phrase_missing h
    refine ⟨codec.tokens ++ [Token.sign '.', .word "parse", .sign '('] ++ ([Token.word text, .sign ')', .word "if",
      .word text, .sign '!', .sign '=', .literal [], .word "else"] ++ tokens), ⟨?_, ?_, ?_⟩, ?_⟩
    · simp [rowTokens?, startsApart, fragment?_codec fit, fragment?_name small.isWordText, missing.row,
        fragment?_readers]
    · refine (fine_call fit "parse").append (Fine.append ?_ missing.fine)
      constructor <;> simp [names, calls, small.isCommon, isCommon_accessors]
    · intro depth
      cases codec <;> simp [CodecName.tokens, missing.level.foldl, Token.depthAfter]
    · rintro _ _ same
      obtain ⟨rfl, _⟩ := FieldContent.simple.inj same
      exact List.prefix_append _ _
  | record className =>
    obtain ⟨isWord, known⟩ := h.record className content
    refine ⟨[.word className, .sign '.', .word "read", .sign '(', .word "child", .sign ')'], ⟨?_, ?_, ?_⟩, ?_⟩
    · simp [rowTokens?, startsApart, fragment?_recordClass isWord, fragment?_readers]
    · constructor <;> simp [names, calls, callee?, codecMethods, known, isCommon_readers]
    · simp [Level, Token.depthAfter]
    · simp

/-! ### Readers -/

theorem variableName_small (h : f.Worded u) : IsSmallWord f.variableName :=
  h.name.append (List.all_eq_true.mp (by decide))

theorem reads_assign (h : f.Worded u) {depth : Nat} {value : List Piece} {tokens : List Token}
    (isPhrase : Phrase u value tokens) :
    Reads [⟨depth, .name f.variableName :: .plain " = " :: value⟩]
      [⟨4 * depth, [Token.word f.variableName, .sign '='] ++ tokens⟩] ∧
      Fine u ([Token.word f.variableName, .sign '='] ++ tokens) := by
  have small := variableName_small h
  have fine : Fine u ([Token.word f.variableName, .sign '='] ++ tokens) := by
    refine Fine.append ?_ isPhrase.fine
    constructor <;> simp [names, calls, small.isCommon]
  refine ⟨.row ?_ ?_ fine.unmarked ?_, fine⟩
  · simp [beginsRow, fragment?_name small.isWordText]
  · simp [rowTokens?, startsApart, fragment?_name small.isWordText, isPhrase.row, fragment?_readers]
  · intro depth
    simp [isPhrase.level.foldl, Token.depthAfter]

theorem readsFine_assign (h : f.Worded u) {depth : Nat} {value : List Piece}
    (isPhrase : ∃ tokens, Phrase u value tokens) :
    ReadsFine u [⟨depth, .name f.variableName :: .plain " = " :: value⟩] := by
  obtain ⟨tokens, isPhrase⟩ := isPhrase
  obtain ⟨reads, fine⟩ := @reads_assign u f h depth value tokens isPhrase
  exact ⟨_, reads, List.forall_mem_singleton.mpr fine⟩

theorem raw_small : IsSmallWord "raw" :=
  ⟨⟨'r', by decide, .inl (by decide)⟩, List.all_eq_true.mp (by decide)⟩

theorem text_small : IsSmallWord "text" :=
  ⟨⟨'t', by decide, .inl (by decide)⟩, List.all_eq_true.mp (by decide)⟩

theorem readsFine_attributeRead (h : f.Worded u) : ReadsFine u f.attributeRead ∧
    ∀ name default, f.content = .simple (.constant name) default →
      ∃ l ∈ readLines f.attributeRead, (name, "parse") ∈ calls [] l.tokens := by
  have start : ReadsFine u [⟨0, ["raw = nodes.get_attribute(node, ", .literal f.key.xmlName, ")"]⟩] := by
    refine .row [.word "raw", .sign '=', .word "nodes", .sign '.', .word "get_attribute", .sign '(',
      .word "node", .sign ',', .literal (Text.writtenPoints f.key.xmlName), .sign ')'] ?_ ?_ ?_ ?_
    · simp [beginsRow, fragment?_readers]
    · simp [rowTokens?, startsApart, fragment?_text, fragment?_readers, fragment?_accessors]
    · constructor <;> simp [names, calls, callee?, codecMethods, isCommon_readers]
    · simp [Level, Token.depthAfter]
  obtain ⟨tokens, value, parsed⟩ := phrase_valueRead h raw_small
  obtain ⟨reads, fine⟩ := @reads_assign u f h 0 _ tokens value
  have store : ReadsFine u [⟨0, .name f.variableName :: .plain " = " :: f.valueRead "raw"⟩] :=
    ⟨_, reads, List.forall_mem_singleton.mpr fine⟩
  refine ⟨start.cons store, fun name default isSimple => ?_⟩
  obtain ⟨rest, rfl⟩ := parsed _ default isSimple
  have both : readLines f.attributeRead = readLines _ ++ readLines _ := start.readLines_append store
  rw [both, reads.eq]
  refine ⟨_, List.mem_append_right _ List.mem_cons_self, ?_⟩
  simp [CodecName.tokens, calls, callee?]

theorem readsFine_elementStart (h : f.Worded u) : ReadsFine u [f.elementStart] := by
  have missing := @readsFine_assign u f h 0 _ (phrase_missing h)
  have none := @readsFine_assign u f h 0 _ ⟨_, phrase_none⟩
  have empty := @readsFine_assign u f h 0 _ ⟨_, phrase_empty⟩
  unfold elementStart
  cases f.content with
  | simple codec default =>
    cases f.occurrence with
    | repeated => exact empty
    | _ => exact missing
  | record className =>
    cases f.occurrence with
    | repeated => exact empty
    | _ => exact none

/-- The test of a child's name, after a word that joins it to those before. -/
theorem readsFine_childRead (h : f.Worded u) {keyword : String} (small : IsSmallWord keyword) :
    ReadsFine u (f.childRead keyword) := by
  have kept := variableName_small h
  obtain ⟨tokens, value, _⟩ := phrase_valueRead h text_small
  have test : ReadsFine u [⟨0, [.name keyword, " tag == ", .literal f.key.xmlName, ":"]⟩] := by
    refine .row [.word keyword, .word "tag", .sign '=', .sign '=',
      .literal (Text.writtenPoints f.key.xmlName), .sign ':'] ?_ ?_ ?_ ?_
    · simp [beginsRow, fragment?_name small.isWordText]
    · simp [rowTokens?, startsApart, fragment?_name small.isWordText, fragment?_text, fragment?_readers,
        fragment?_method]
    · constructor <;> simp [names, calls, small.isCommon, isCommon_readers]
    · simp [Level, Token.depthAfter]
  have text : ReadsFine u [.plain 1 "text = nodes.node_text(child)"] := by
    refine .row [.word "text", .sign '=', .word "nodes", .sign '.', .word "node_text", .sign '(',
      .word "child", .sign ')'] ?_ ?_ ?_ ?_
    · simp [beginsRow, fragment?_readers]
    · simp [rowTokens?, startsApart, fragment?_readers]
    · constructor <;> simp [names, calls, callee?, codecMethods, isCommon_readers]
    · simp [Level, Token.depthAfter]
  have added : ReadsFine u
      [⟨1, Piece.name f.variableName :: .plain ".append(" :: f.valueRead "text" ++ [Piece.plain ")"]⟩] := by
    have opened : rowTokens? (.name f.variableName :: .plain ".append(" :: f.valueRead "text") =
        some ([Token.word f.variableName, .sign '.', .word "append", .sign '('] ++ tokens) := by
      simp [rowTokens?, startsApart, fragment?_name kept.isWordText, value.row, fragment?_readers]
    refine .row ([Token.word f.variableName, .sign '.', .word "append", .sign '('] ++ tokens ++ [Token.sign ')'])
      ?_ (rowTokens?_append opened ?_ ?_) ((Fine.append ?_ value.fine).append ?_) ?_
    · simp [beginsRow, fragment?_name kept.isWordText]
    · simp [rowTokens?, startsApart, fragment?_accessors]
    · simp [startsApart, fragment?_accessors]
    · constructor <;> simp +contextual [names, calls, callee?, codecMethods, kept.isCommon]
    · constructor <;> simp [names, calls]
    · intro depth
      simp [value.level.foldl, Token.depthAfter]
  have stored : ReadsFine u [if f.isRepeated then
      ⟨1, Piece.name f.variableName :: .plain ".append(" :: f.valueRead "text" ++ [Piece.plain ")"]⟩
      else ⟨1, .name f.variableName :: .plain " = " :: f.valueRead "text"⟩] := by
    split
    · exact added
    · exact readsFine_assign h ⟨tokens, value⟩
  unfold childRead
  cases f.content with
  | simple codec default => exact test.append (text.append stored)
  | record className => exact test.append stored

theorem readsFine_recordFill (h : f.Worded u) : ReadsFine u f.recordFill := by
  have kept := variableName_small h
  have test : ReadsFine u [⟨0, ["if ", .name f.variableName, " is None:"]⟩] := by
    refine .row [.word "if", .word f.variableName, .word "is", .word "None", .sign ':'] ?_ ?_ ?_ ?_
    · simp [beginsRow, fragment?_readers]
    · simp [rowTokens?, startsApart, fragment?_name kept.isWordText, fragment?_readers,
        fragment?_accessors]
    · constructor <;> simp [names, calls, kept.isCommon, isCommon_accessors, isCommon_items]
    · simp [Level, Token.depthAfter]
  unfold recordFill
  split
  · exact test.append (readsFine_assign h (phrase_missing h))
  · exact .nil

/-! ### Writers -/

/-- A line that writes a value is written for each value of the field. -/
theorem readsFine_forEach (h : f.Worded u) {statement : List Piece}
    (written : ∀ depth, ReadsFine u [⟨depth, statement⟩]) : ReadsFine u (f.forEach statement) := by
  have small := h.name
  have optional : ReadsFine u [⟨0, ["if self.", .name f.name, " is not None:"]⟩] := by
    refine .row [.word "if", .word "self", .sign '.', .word f.name, .word "is", .word "not", .word "None",
      .sign ':'] ?_ ?_ ?_ ?_
    · simp [beginsRow, fragment?_accessors]
    · simp [rowTokens?, startsApart, fragment?_name small.isWordText, fragment?_accessors,
        fragment?_writers]
    · constructor <;> simp [names, calls, isCommon_accessors, isCommon_items]
    · simp [Level, Token.depthAfter]
  have repeated : ReadsFine u [⟨0, ["for value in self.", .name f.name, ":"]⟩] := by
    refine .row [.word "for", .word "value", .word "in", .word "self", .sign '.', .word f.name, .sign ':']
      ?_ ?_ ?_ ?_
    · simp [beginsRow, fragment?_writers]
    · simp [rowTokens?, startsApart, fragment?_name small.isWordText, fragment?_writers,
        fragment?_method]
    · constructor <;> simp [names, calls, isCommon_accessors, isCommon_readers, isCommon_writers]
    · simp [Level, Token.depthAfter]
  unfold forEach
  cases f.occurrence with
  | once => exact written 0
  | optional => exact optional.append (written 1)
  | repeated => exact repeated.append (written 1)

theorem value_small : IsSmallWord "value" :=
  ⟨⟨'v', by decide, .inl (by decide)⟩, List.all_eq_true.mp (by decide)⟩

theorem phrase_value (h : f.Worded u) : ∃ tokens, Phrase u f.value tokens := by
  have small := h.name
  unfold value
  split
  · refine ⟨[.word "value"], ?_, ?_, fun _ => rfl⟩
    · simp [rowTokens?, startsApart, fragment?_name value_small.isWordText]
    · constructor <;> simp [names, calls, isCommon_writers]
  · refine ⟨[.word "self", .sign '.', .word f.name], ?_, ?_, fun _ => rfl⟩
    · simp [rowTokens?, startsApart, fragment?_name small.isWordText, fragment?_writers]
    · constructor <;> simp [names, calls, isCommon_accessors]

/-- A line that writes the text of a value by a function of the writer. -/
theorem readsFine_textWrite (h : f.Worded u) {codec : CodecName} (fit : codec.Fit u)
    {opening closing : String} (function : String) (rest : List Token) (text : String) (depth : Nat)
    (opens : SourceText.fragment? opening = some ⟨[.word "writer", .sign '.', .word function, .sign '(',
      .word "out", .sign ','], false, false, true⟩)
    (closes : SourceText.fragment? closing = some ⟨Token.sign ')' :: rest ++ [Token.sign ')'], false, true, true⟩)
    (other : function ∉ codecMethods) (fine : Fine u rest) (level : Level rest) :
    ReadsFine u [⟨depth, Piece.plain opening :: .literal text :: .plain ", " :: .codec codec ::
      .plain ".format(" :: f.value ++ [Piece.plain closing]⟩] := by
  obtain ⟨tokens, value⟩ := phrase_value h
  let start : List Token := [.word "writer", .sign '.', .word function, .sign '(', .word "out", .sign ',',
    .literal (Text.writtenPoints text), .sign ',']
  have opened : rowTokens? (.plain opening :: .literal text :: .plain ", " :: .codec codec ::
      .plain ".format(" :: f.value) =
        some (start ++ (codec.tokens ++ [Token.sign '.', .word "format", .sign '('] ++ tokens)) := by
    simp [start, rowTokens?, startsApart, opens, fragment?_text, fragment?_codec fit, value.row,
      fragment?_accessors, fragment?_writers]
  refine .row (start ++ (codec.tokens ++ [Token.sign '.', .word "format", .sign '('] ++ tokens) ++
      ([Token.sign ')'] ++ rest ++ [Token.sign ')'])) ?_ (rowTokens?_append opened ?_ ?_)
    ((Fine.append ?_ ((fine_call fit "format").append value.fine)).append
      ((Fine.append ?_ fine).append ?_)) ?_
  · simp [beginsRow, opens]
  · simp [rowTokens?, startsApart, closes]
  · simp [startsApart, closes]
  · constructor <;> simp [start, names, calls, callee?, other, isCommon_writers]
  · constructor <;> simp [names, calls]
  · constructor <;> simp [names, calls]
  · intro depth
    cases codec <;> simp [start, CodecName.tokens, value.level.foldl, level.foldl, Token.depthAfter]

theorem readsFine_attributeWrite (h : f.Worded u) : ReadsFine u f.attributeWrite := by
  unfold attributeWrite
  cases content : f.content with
  | simple codec default =>
    exact readsFine_forEach h fun depth => readsFine_textWrite h (h.codec codec default content)
      "write_attribute" [] _ depth (by simp [fragment?_writers]) (by simp [fragment?_writers])
      (by decide) .nil .nil
  | record className => exact .nil

theorem readsFine_elementWrite (h : f.Worded u) : ReadsFine u f.elementWrite := by
  unfold elementWrite
  cases content : f.content with
  | simple codec default =>
    refine readsFine_forEach h fun depth => readsFine_textWrite h (h.codec codec default content)
      "write_text_element" [.sign ',', .word "depth", .sign '+', .word "1"] _ depth
      (by simp [fragment?_writers]) (by simp [fragment?_writers]) (by decide) ?_ ?_
    · constructor <;> simp [names, calls, isCommon_writers]
    · simp [Level, Token.depthAfter]
  | record className =>
    refine readsFine_forEach h fun depth => ?_
    have small := h.name
    unfold value
    split
    · refine .row [.word "value", .sign '.', .word "write", .sign '(', .word "out", .sign ',',
        .literal (Text.writtenPoints f.key.xmlName), .sign ',', .word "depth", .sign '+', .word "1",
        .sign ')'] ?_ ?_ ?_ ?_
      · simp [beginsRow, fragment?_name value_small.isWordText]
      · simp [rowTokens?, startsApart, fragment?_name value_small.isWordText, fragment?_text,
          fragment?_writers]
      · constructor <;> simp [names, calls, callee?, codecMethods, isCommon_writers]
      · simp [Level, Token.depthAfter]
    · refine .row [.word "self", .sign '.', .word f.name, .sign '.', .word "write", .sign '(',
        .word "out", .sign ',', .literal (Text.writtenPoints f.key.xmlName), .sign ',', .word "depth",
        .sign '+', .word "1", .sign ')'] ?_ ?_ ?_ ?_
      · simp [beginsRow, fragment?_writers]
      · simp [rowTokens?, startsApart, fragment?_name small.isWordText, fragment?_text,
          fragment?_writers]
      · constructor <;> simp [names, calls, callee?, isCommon_accessors, isCommon_writers]
      · simp [Level, Token.depthAfter]

end FieldSource

end XmlRecords.ModuleSource
