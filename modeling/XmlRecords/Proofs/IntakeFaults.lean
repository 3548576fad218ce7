import XmlRecords.Proofs.BoundReading
import XmlRecords.Proofs.CodecFaults
import XmlRecords.Proofs.Faithfulness
import XmlRecords.Proofs.RoundTrip

/-!
The faults that taking in a document ends in. A document that cannot be loaded or is of another kind
gives no record and no fault; a text in it that does not parse gives a fault that names the text and
its type. Three things break the rule: an integer of too many digits, an enumeration whose conversion
cannot be used, and a class without records.
-/

set_option autoImplicit false
set_option relaxedAutoImplicit false

namespace XmlRecords

open Xml

/-! ### The faults of elements -/

theorem RecordType.Consults.legible {type : RecordType} {tag : StartTag} {children : List Node}
    {codec : Codec} {raw : String} (consults : type.Consults tag children codec raw)
    (legible : Legible (Node.element tag children).characters) : Legible raw.toList := by
  induction consults with
  | value _ _ _ found _ =>
    rw [Node.characters, legible_append] at legible
    exact legible_attributeValue legible.1 found
  | text _ _ _ present _ =>
    rw [Node.characters, legible_append] at legible
    have inside := legible_of_mem_elementsOf legible.2 (List.mem_of_mem_filter present)
    rw [Node.characters, legible_append] at inside
    exact legible_directText inside.2
  | nested _ _ _ present _ ih =>
    rw [Node.characters, legible_append] at legible
    exact ih (legible_of_mem_elementsOf legible.2 (List.mem_of_mem_filter present))

/-! ### The limit on depth -/

namespace Xml

section

variable (surroundings : Surroundings) (limit : Option Nat)

mutual
theorem resolveRaw?_eq_unlimited (d : Declarations) (expand : Expansion) (prefixes : Prefixes)
    (raw : Raw) : resolveRaw? ⟨surroundings, limit⟩ d expand prefixes raw =
      resolveRaw? ⟨surroundings, none⟩ d expand prefixes raw := by
  cases raw with
  | element name attributes children =>
    have below (inner : Prefixes) := resolveAll?_eq_unlimited d expand inner children
    simp only [resolveRaw?, below, attributeValues?]
  | _ => rfl

theorem resolveAll?_eq_unlimited (d : Declarations) (expand : Expansion) (prefixes : Prefixes)
    (raws : List Raw) : resolveAll? ⟨surroundings, limit⟩ d expand prefixes raws =
      resolveAll? ⟨surroundings, none⟩ d expand prefixes raws := by
  cases raws with
  | nil => rfl
  | cons raw raws =>
    rw [resolveAll?, resolveAll?, resolveRaw?_eq_unlimited d expand prefixes raw,
      resolveAll?_eq_unlimited d expand prefixes raws]
end

theorem expandEntity?_eq_unlimited (d : Declarations) (fuel : Nat) :
    expandEntity? ⟨surroundings, limit⟩ d fuel = expandEntity? ⟨surroundings, none⟩ d fuel := by
  induction fuel with
  | zero => rfl
  | succ fuel ih =>
    funext before name
    simp only [expandEntity?, ih, resolveAll?_eq_unlimited]

end

variable {surroundings : Surroundings} {limit : Option Nat}

theorem only_of_shallow {root : Node} (nodes : List Node) :
    (match nodes with | [node] => some node | _ => none) = some root →
      (∀ n, limit = some n → root.depth ≤ n) →
        (match nodes with
          | [node] =>
            match limit with
            | some n => if node.depth ≤ n then some node else none
            | none => some node
          | _ => none) = some root := by
  intro given shallow
  split at given
  · obtain rfl := Option.some.inj given
    cases limit with
    | none => rfl
    | some n => exact if_pos (shallow n rfl)
  · cases given

theorem parseDocument?_of_unlimited {document : List Char} {root : Node}
    (parsed : parseDocument? ⟨surroundings, none⟩ document = some root)
    (shallow : ∀ n, limit = some n → root.depth ≤ n) :
    parseDocument? ⟨surroundings, limit⟩ document = some root := by
  simp only [parseDocument?, expandEntity?_eq_unlimited surroundings limit,
    resolveRaw?_eq_unlimited surroundings limit, resolveAll?_eq_unlimited surroundings limit]
    at parsed ⊢
  split at parsed
  · cases parsed
  · rename_i fits
    rw [if_neg fits]
    obtain ⟨⟨declaration, start⟩, isStart, parsed⟩ := Option.bind_eq_some_iff.mp parsed
    obtain ⟨⟨d, after⟩, isProlog, parsed⟩ := Option.bind_eq_some_iff.mp parsed
    obtain ⟨content, isContent, parsed⟩ := Option.bind_eq_some_iff.mp parsed
    obtain ⟨raw, isRoot, parsed⟩ := Option.bind_eq_some_iff.mp parsed
    simp only [isStart, isProlog, isContent, isRoot, Option.bind_eq_bind, Option.bind_some]
    split at parsed
    · cases parsed
    · rename_i allowed
      rw [if_neg allowed]
      obtain ⟨whole, isWhole, parsed⟩ := Option.bind_eq_some_iff.mp parsed
      simp only [isWhole, Option.bind_some]
      split at parsed
      · rename_i going
        rw [if_pos going]
        exact only_of_shallow _ parsed shallow
      · rename_i cutShort
        rw [if_neg cutShort]
        obtain ⟨cut, isCut, parsed⟩ := Option.bind_eq_some_iff.mp parsed
        rw [isCut]
        exact only_of_shallow _ parsed shallow

theorem parse?_of_unlimited {source : Source} {root : Node}
    (parsed : source.parse? ⟨surroundings, none⟩ = some root)
    (shallow : ∀ n, limit = some n → root.depth ≤ n) :
    source.parse? ⟨surroundings, limit⟩ = some root := by
  obtain ⟨cs, decoded, parsed⟩ := Option.bind_eq_some_iff.mp parsed
  rw [Source.parse?, decoded]
  exact parseDocument?_of_unlimited parsed shallow

end Xml

/-! ### The faults of documents -/

namespace Intake

/-- The root element of a document with its inclusions made, none if the document is malformed or an
inclusion fails. -/
def root? (options : IntakeOptions) (store : FileStore) (document : Source) : Option Node :=
  (document.parse? (settings options store options.base)).bind fun root =>
    if options.inclusion then
      includeInRoot? store options.expandEntities options.depthLimit options.base root
    else some root

variable {options : IntakeOptions} {store : FileStore} {document : Source}

theorem parse_of_root?_eq_none (none : root? options store document = none)
    (rootElement : Schema.Label) (type : RecordType) :
    ∃ notice, parse options store rootElement type document = .ok (failure notice) := by
  unfold root? at none
  unfold parse
  cases parsed : document.parse? (settings options store options.base) with
  | none => exact ⟨_, rfl⟩
  | some root =>
    rw [parsed, Option.bind_some] at none
    simp only [ofDocument]
    split
    · rename_i including
      rw [if_pos including] at none
      rw [none]
      exact ⟨_, rfl⟩
    · rename_i leaving
      rw [if_neg leaving] at none
      cases none

theorem parse_of_root?_eq_some {root : Node} (given : root? options store document = some root)
    (rootElement : Schema.Label) (type : RecordType) :
    parse options store rootElement type document = ofRoot "<string>" rootElement type root := by
  obtain ⟨whole, parsed, given⟩ := Option.bind_eq_some_iff.mp given
  rw [parse, parsed]
  simp only [ofDocument]
  split
  · rename_i including
    rw [if_pos including] at given
    rw [given]
  · rename_i leaving
    rw [if_neg leaving] at given
    rw [Option.some.inj given]

theorem legible_of_root? (baseFit : LegibleBase options.base) {root : Node}
    (given : root? options store document = some root) : Legible root.characters := by
  obtain ⟨whole, parsed, given⟩ := Option.bind_eq_some_iff.mp given
  have legible := legible_of_parse? parsed
  split at given
  · exact legible_of_includeInRoot? baseFit legible given
  · exact Option.some.inj given ▸ legible

end Intake

namespace BoundSchema

/-- An element is what the root record of a document is read from. -/
structure ReadsFrom (b : BoundSchema) (options : IntakeOptions) (store : FileStore)
    (document : Source) (type : RecordType) (tag : StartTag) (children : List Node) : Prop where
  type : b.rootType = .ok type
  root : Intake.root? options store document = some (.element tag children)
  named : b.schema.rootElement = .text tag.name

/-- The reading of a document needs no class without records, takes no text to an enumeration whose
conversion cannot be used, and meets no integer of too many digits. -/
structure Serves (b : BoundSchema) (options : IntakeOptions) (store : FileStore)
    (document : Source) : Prop where
  records : ∀ type tag children, b.ReadsFrom options store document type tag children →
    ¬ type.Blocked tag children
  conversions : ∀ type tag children, b.ReadsFrom options store document type tag children →
    ∀ codec raw, type.Consults tag children codec raw → codec.Convertible
  digits : ∀ type tag children, b.ReadsFrom options store document type tag children →
    ∀ codec raw, type.Consults tag children codec raw → ¬ codec.Overlong raw

/-- How taking in a document ends if all goes by the rules: without a record, with one of the root type,
or with a fault that names a text of the root element and its type. -/
inductive EndsWell (b : BoundSchema) (options : IntakeOptions) (store : FileStore)
    (document : Source) (type : RecordType) : Except Fault Intake → Prop
  | nothing (notices : List Notice) : EndsWell b options store document type (.ok ⟨none, notices⟩)
  | record (values : List Value) :
      EndsWell b options store document type (.ok ⟨some (.record type.layout values), []⟩)
  | refused {tag : StartTag} {children : List Node} {codec : Codec} {raw : String}
      {cause : CodecFault} :
      b.ReadsFrom options store document type tag children → type.Consults tag children codec raw →
      codec.read raw = .error cause → cause.isExplained = true →
      EndsWell b options store document type (.error (.codec cause))

variable {definition : Json} {source : Schema.Label} {s : Schema} {b : BoundSchema}

theorem exists_rootType (loaded : Schema.load definition source = .ok s) (bound : bind s = .ok b) :
    ∃ type, b.rootType = .ok type := by
  obtain ⟨valid, _⟩ := Schema.exists_outline_of_load loaded
  have closed := Schema.closed_of_load loaded
  have checked := Schema.checked_of_validate valid
  obtain ⟨bindings, built, covers, isRecords, names⟩ := exists_bindings closed checked bound
  obtain ⟨t, declared, isRoot⟩ := checked.rootType
  obtain ⟨⟨t, type⟩, isBinding, rfl⟩ := List.mem_map.mp (covers.mem_iff.mpr declared)
  obtain ⟨_, _, name, _, _, isName, _⟩ := exists_describes built isBinding
  have member : (t.qualifiedName, type) ∈ b.records := by
    rw [isRecords]
    exact List.mem_map_of_mem isBinding
  have found : recordNamed? b.records t.qualifiedName = some type :=
    recordNamed?_eq_some names member isName
  refine ⟨type, ?_⟩
  rw [rootType, schema_of_bind bound, ← isRoot, closed.type? declared, Option.bind_some, found]

/-- Of a document that the schema serves, the root record is read, or the fault names the text that
is no value. -/
theorem endsWell_of_readsFrom {options : IntakeOptions} (baseFit : LegibleBase options.base)
    {store : FileStore} {document : Source} (serves : b.Serves options store document)
    {type : RecordType} (sound : type.Throughout Field.Sound) {tag : StartTag} {children : List Node}
    (reads : b.ReadsFrom options store document type tag children) :
    b.EndsWell options store document type
      (Intake.ofRoot "<string>" b.schema.rootElement type (.element tag children)) := by
  rw [Intake.ofRoot, if_pos (Schema.same_text_iff.mpr reads.named)]
  cases read : type.fromNode (.element tag children) with
  | ok v =>
    obtain ⟨_, _, values, rfl, _⟩ :=
      (RecordType.fromNode_eq_ok_iff sound.fields tag children v).mp read
    exact .record values
  | error fault =>
    obtain blocked | ⟨codec, raw, cause, consults, failed, rfl⟩ :=
      RecordType.fault_of_fromNode sound read
    · exact absurd blocked (serves.records type tag children reads)
    · have legible := consults.legible (Intake.legible_of_root? baseFit reads.root)
      have explained := Codec.isExplained_of_read
        (serves.conversions type tag children reads codec raw consults) legible
        (serves.digits type tag children reads codec raw consults) failed
      exact .refused reads consults failed explained

/-- Taking in a document gives a record of the root type or none, or it ends in a fault that names a
text of the document and its type, as long as the document is one that the schema serves. -/
theorem endsWell_parse (loaded : Schema.load definition source = .ok s) (bound : bind s = .ok b)
    {options : IntakeOptions} (baseFit : LegibleBase options.base) {store : FileStore}
    {document : Source} (serves : b.Serves options store document) :
    ∃ type, b.rootType = .ok type ∧
      b.EndsWell options store document type (b.parse options store document) := by
  obtain ⟨type, isRoot⟩ := exists_rootType loaded bound
  obtain ⟨label, member⟩ := mem_of_rootType isRoot
  have parsed : b.parse options store document =
      Intake.parse options store b.schema.rootElement type document := by
    rw [parse, isRoot]
    rfl
  refine ⟨type, isRoot, ?_⟩
  rw [parsed]
  cases given : Intake.root? options store document with
  | none =>
    obtain ⟨notice, failed⟩ := Intake.parse_of_root?_eq_none given b.schema.rootElement type
    rw [failed]
    exact .nothing _
  | some root =>
    rw [Intake.parse_of_root?_eq_some given]
    cases root with
    | text s => exact .nothing _
    | comment s => exact .nothing _
    | instruction target data => exact .nothing _
    | element tag children =>
      by_cases named : b.schema.rootElement.same (.text tag.name) = true
      · exact endsWell_of_readsFrom baseFit serves (sound_of_bind bound _ member)
          ⟨isRoot, given, Schema.same_text_iff.mp named⟩
      · rw [Intake.ofRoot, if_neg named]
        exact .nothing _

end BoundSchema

/-! ### Tallies -/

def tallyDefinition : Json :=
  .object [
    ("name", .text "tally"),
    ("types", .array [.object [
      ("name", .text "Tally"),
      ("attributes", .array [.object [
        ("name", .text "count"), ("type", .text "int32"), ("required", .boolean true)]])]]),
    ("root", .object [("element", .text "tally"), ("type", .text "Tally")])]

def tallySchema : Schema := {
  name := .text "tally"
  rootElement := .text "tally"
  rootType := 0
  declared := [
    ⟨0, .text "Tally", .text "Tally", none, [⟨.text "count", .primitive .int32, true, none⟩], []⟩]
  undeclared := []
  enumerations := []
  package := .null }

def tallyField : Field := .simple ⟨"count", "count", true, .once⟩ (.integer .int32) .absent

def tallyType : RecordType := .mk "Tally" "Tally" [tallyField]

def tallyBound : BoundSchema := ⟨tallySchema, [], [(.text "Tally", tallyType)]⟩

theorem load_tallyDefinition : Schema.load tallyDefinition (.text "tally") = .ok tallySchema := by
  rfl

theorem bind_tallySchema : BoundSchema.bind tallySchema = .ok tallyBound := by
  rfl

def ones (n : Nat) : String := String.ofList (List.replicate n '1')

def tallyDocument (n : Nat) : String := "<tally count=\"" ++ ones n ++ "\">\n</tally>\n"

theorem toList_tallyDocument (n : Nat) : (tallyDocument n).toList =
    (indent 0).toList ++ elementChars 0 "tally" [("count", ones n)] .nil := by
  have plain : (List.replicate n '1').flatMap escapedInAttribute = List.replicate n '1' := by
    induction n with
    | zero => rfl
    | succ n ih =>
      rw [List.replicate_succ, List.flatMap_cons, ih]
      rfl
  delta tallyDocument
  simp [ones, elementChars, openingChars, attributeChars, closingChars, Forest.chars, lineStart,
    indent, plain]

theorem root?_tallyDocument (n : Nat) :
    Intake.root? .standard (FileStore.empty []) (.characters (tallyDocument n)) =
      some (.element (plainTag "tally" [("count", ones n)]) [.text "\n"]) := by
  have fit : PlainAttributes [("count", ones n)] := by
    refine ⟨by simp, by simp; decide, ?_⟩
    intro a member c inside
    obtain rfl := List.mem_singleton.mp member
    rw [ones, String.toList_ofList] at inside
    rw [List.eq_of_mem_replicate inside]
    decide
  have inside : Forest.nil.normalized.nodes 1 0 = [.text "\n"] := rfl
  have tree : (Source.characters (tallyDocument n)).parse?
      (Intake.settings .standard (FileStore.empty []) none) =
        some (.element (plainTag "tally" [("count", ones n)]) [.text "\n"]) := by
    refine parse?_of_unlimited (@parse?_indented ⟨⟨none, true, fetchEntity (FileStore.empty [])⟩, none⟩
      rfl "tally" (by decide) _ fit .nil trivial 0 _ (toList_tallyDocument n)) ?_
    rintro limit same
    obtain rfl := Option.some.inj same
    rw [Node.depth]
    decide
  have noBase : IntakeOptions.standard.base = none := rfl
  have including : IntakeOptions.standard.inclusion = true := rfl
  rw [Intake.root?, noBase, tree, Option.bind_some, if_pos including, ← inside]
  exact includeInRoot?_plain _ _ _ _ _ _ .nil 1 0

theorem digitCount_ones (n : Nat) : digitCount (ones n) = n := by
  have digit : Text.isDecimalDigit '1' = true := by decide
  rw [digitCount, ones, String.toList_ofList, List.countP_replicate, if_pos digit]

theorem looksInteger_ones (n : Nat) : looksInteger (ones (n + 1)) = true := by
  have trimmed : Text.trimBoth Text.isBlank (List.replicate (n + 1) '1') = '1' :: List.replicate n '1' :=
    trimBoth_eq fun c member => List.eq_of_mem_replicate member ▸ by decide
  have digits : ∀ c ∈ '1' :: List.replicate n '1', Text.isDecimalDigit c = true := by
    rw [← List.replicate_succ]
    exact fun c member => List.eq_of_mem_replicate member ▸ by decide
  rw [looksInteger, ones, String.toList_ofList, trimmed, Number.takeSign]
  · simpa only [List.isEmpty_cons, Bool.not_false, Bool.true_and, List.all_eq_true] using digits
  · intro rest same
    cases same
  · intro rest same
    cases same

theorem legible_ones (n : Nat) : Legible (ones n).toList := by
  rw [ones, String.toList_ofList]
  exact fun c member => List.eq_of_mem_replicate member ▸ by decide

theorem accessible_tallyType : tallyType.Throughout Field.Accessible := by
  refine .mk (List.forall_mem_singleton.mpr ⟨rfl, fun _ => ?_⟩) ?_
  · exact not_fails_ok ("", "count")
  · rintro f member inner nested
    obtain rfl := List.mem_singleton.mp member
    cases nested

namespace BoundSchema

theorem serves_tally {n : Nat} (few : n ≤ Number.digitLimit) :
    tallyBound.Serves .standard (FileStore.empty []) (.characters (tallyDocument n)) := by
  have only {type : RecordType} {tag : StartTag} {children : List Node} {codec : Codec} {raw : String}
      (read : tallyBound.ReadsFrom .standard (FileStore.empty []) (.characters (tallyDocument n)) type
        tag children) (consults : type.Consults tag children codec raw) :
      codec = .integer .int32 ∧ raw = ones n := by
    have isType : type = tallyType := (Except.ok.inj read.type).symm
    have isTree := (root?_tallyDocument n).symm.trans read.root
    obtain ⟨rfl, rfl⟩ := Node.element.inj (Option.some.inj isTree)
    subst isType
    cases consults with
    | value member isAttribute simple found given =>
      obtain rfl := List.mem_singleton.mp member
      exact ⟨(Option.some.inj simple).symm, (Except.ok.inj found).symm⟩
    | text member element =>
      obtain rfl := List.mem_singleton.mp member
      cases element
    | nested member element =>
      obtain rfl := List.mem_singleton.mp member
      cases element
  constructor
  · intro type tag children read
    obtain rfl : type = tallyType := (Except.ok.inj read.type).symm
    exact RecordType.not_blocked accessible_tallyType tag children
  · intro type tag children read codec raw consults
    obtain ⟨rfl, _⟩ := only read consults
    trivial
  · rintro type tag children read codec raw consults
    obtain ⟨rfl, rfl⟩ := only read consults
    rintro ⟨_, long⟩
    rw [digitCount_ones] at long
    omega

theorem endsWell_parse_tally :
    Schema.load tallyDefinition (.text "tally") = .ok tallySchema ∧ bind tallySchema = .ok tallyBound ∧
      tallyBound.Serves .standard (FileStore.empty []) (.characters (tallyDocument 11)) ∧
      ∃ type, tallyBound.rootType = .ok type ∧
        tallyBound.EndsWell .standard (FileStore.empty []) (.characters (tallyDocument 11)) type
          (tallyBound.parse .standard (FileStore.empty []) (.characters (tallyDocument 11))) :=
  ⟨load_tallyDefinition, bind_tallySchema, serves_tally (by decide),
    endsWell_parse load_tallyDefinition bind_tallySchema legibleBase_none (serves_tally (by decide))⟩

/-- A number of too many digits ends in a fault that names neither the number nor its type. -/
theorem parse_tallyDocument_of_long {n : Nat} (long : Number.digitLimit < n) :
    tallyBound.parse .standard (FileStore.empty []) (.characters (tallyDocument n)) =
      .error (.codec (.integerTooLong n)) := by
  obtain ⟨m, rfl⟩ : ∃ m, n = m + 1 := ⟨n - 1, by omega⟩
  have read : (Codec.integer .int32).read (ones (m + 1)) = .error (.integerTooLong (m + 1)) := by
    have failed := @Codec.readInteger_of_overlong .int32 _ (legible_ones (m + 1))
      ⟨looksInteger_ones m, by rwa [digitCount_ones]⟩
    rwa [digitCount_ones] at failed
  have given : ones (m + 1) ≠ "" := by
    intro empty
    have count := digitCount_ones (m + 1)
    rw [empty] at count
    cases count
  have raw : attributeValue [⟨"", "count", ones (m + 1)⟩] "count" =
      .ok (ones (m + 1)) := rfl
  have value : tallyField.fromAttribute [⟨"", "count", ones (m + 1)⟩] =
      .error (.codec (.integerTooLong (m + 1))) := by
    rw [Field.fromAttribute, tallyField]
    simp only [Field.key, Field.codec?, raw, Bind.bind, Except.bind, if_neg given, read]
    rfl
  have values : attributeValues tallyType.fields [⟨"", "count", ones (m + 1)⟩] =
      .error (.codec (.integerTooLong (m + 1))) := by
    have only : tallyType.fields.filter (·.key.isAttribute) = [tallyField] := rfl
    rw [attributeValues, only, List.mapM_cons, value]
    rfl
  have isRoot : tallyBound.rootType = .ok tallyType := rfl
  have named : tallyBound.schema.rootElement.same
      (.text (plainTag "tally" [("count", ones (m + 1))]).name) = true := rfl
  rw [parse, isRoot]
  simp only [Bind.bind, Except.bind]
  rw [Intake.parse_of_root?_eq_some (root?_tallyDocument (m + 1)), Intake.ofRoot, if_pos named,
    RecordType.fromNode]
  simp only [plainTag, List.map_cons, List.map_nil, values, Bind.bind, Except.bind]

theorem not_endsWell_longTally :
    Schema.load tallyDefinition (.text "tally") = .ok tallySchema ∧ bind tallySchema = .ok tallyBound ∧
      ¬ ∃ type, tallyBound.rootType = .ok type ∧
        tallyBound.EndsWell .standard (FileStore.empty []) (.characters (tallyDocument 4301)) type
          (tallyBound.parse .standard (FileStore.empty []) (.characters (tallyDocument 4301))) := by
  refine ⟨load_tallyDefinition, bind_tallySchema, ?_⟩
  rw [parse_tallyDocument_of_long (by decide)]
  rintro ⟨type, _, well⟩
  cases well with
  | refused _ _ _ explained => cases explained

end BoundSchema

end XmlRecords
