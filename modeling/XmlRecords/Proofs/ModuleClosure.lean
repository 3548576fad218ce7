import XmlRecords.Proofs.PrivateNames
import XmlRecords.Proofs.StatementViews

/-!
The modules generated for a schema are closed, as they are read: the constants and classes that a class uses
are bound before it, and what is imported is what is used and is there.
-/

set_option autoImplicit false
set_option relaxedAutoImplicit false

namespace XmlRecords.SourceText

/-! ### Closed modules -/

def classesIn (bs : List Block) : List String := bs.filterMap Block.className?

def importsFrom (moduleName : String) (bs : List Block) : List String :=
  bs.flatMap fun b =>
    match b.import? with
    | some (path, names) => if path.getLast? = some moduleName then names else []
    | none => []

def classStatements (bs : List Block) : List Block := bs.filter (·.className?.isSome)

def annotationNames (bs : List Block) : List String :=
  (classStatements bs).flatMap fun b => (b.inner.filterMap Block.annotation?).flatMap fun entry =>
    names false entry.2

def valueNames (bs : List Block) : List String :=
  (bs.filterMap Block.assignment?).flatMap fun entry => names false entry.2

/-- What a name in the body of a class means, where names are read in some form. -/
def inClass (read : String → String) (own name : String) : String := mangle (read own) (read name)

end XmlRecords.SourceText

namespace XmlRecords.ModuleSource

open SourceText Schema
open Identifier (IsName)

/-- The statements of a records module and of its module of enumerations, as their names are read, are closed:
all that is used is there when it is used. -/
structure Closed (read : String → String) (s : Schema) (moduleName : String) (enums records : List Block) :
    Prop where
  /-- Nothing is defined twice. -/
  once : ((records.flatMap Block.binds).map read).Nodup
  /-- A constant whose codec a class calls is assigned before the first class, and after all that its value
  mentions. -/
  constants : ∀ (before : List Block) (b : Block) after own, records = before ++ b :: after →
    b.className? = some own → ∀ l ∈ b.body, ∀ call ∈ calls [] l.tokens, call.2 ∈ codecMethods →
      ∃ (first : List Block) (constant : Block) (rest : List Block) (name : String) (value : List Token),
        before = first ++ constant :: rest ∧ constant.assignment? = some (name, value) ∧
        read name = inClass read own call.1 ∧ (∀ other ∈ first, other.className? = none) ∧
        ∀ used ∈ names false value, read used ∈ (first.flatMap Block.binds).map read
  imported : ∀ name ∈ (importsFrom moduleName records).map read, name ∈ (classesIn enums).map read
  annotated : ∀ name ∈ (classesIn enums).map read,
    (name ∈ (importsFrom moduleName records).map read ↔ name ∈ (annotationNames records).map read)
  converted : ∀ name ∈ (classesIn enums).map read,
    (name ∈ (importsFrom moduleName records).map read ↔ name ∈ (valueNames records).map read)
  /-- There is a class for each type. -/
  types : (classesIn records).Perm (s.declared.map ComplexType.className)
  /-- A record class in the body of a class is that class or one before it. -/
  ordered : ∀ (before : List Block) (b : Block) after own, records = before ++ b :: after →
    b.className? = some own → ∀ l ∈ b.body, ∀ name ∈ names false l.tokens,
      inClass read own name ∈ (classesIn records).map read →
      inClass read own name = read own ∨ inClass read own name ∈ (classesIn before).map read

variable {s : Schema} {table : CodecTable} {classes : List RecordClass} {path : List Token}
  {words used : List String} {points : List Nat} {rootName root : String}

theorem classStatements_records (leads : LeadsTo path words) (isRoot : IsName root) (classes : List RecordClass) :
    classStatements (openingBlocks points path used rootName ++
      (constantBlocks table ++ (classBlocks classes ++ functionBlocks root))) =
        classes.map RecordClass.classBlock := by
  have none {bs : List Block} (each : ∀ b ∈ bs, b.className? = none) : bs.filter (·.className?.isSome) = [] :=
    List.filter_eq_nil_iff.mpr fun b member => by simp [each b member]
  have functions := none fun b member => ((views_functionBlocks isRoot).2 b member).1
  have own : (classBlocks classes).filter (·.className?.isSome) = classes.map RecordClass.classBlock := by
    induction classes with
    | nil => rfl
    | cons c classes ih => exact congrArg (c.classBlock :: ·) ih
  rw [classStatements, List.filter_append, List.filter_append, List.filter_append,
    none (className?_openingBlocks leads), none className?_constantBlocks, functions, own, List.nil_append,
    List.nil_append, List.append_nil]

theorem classesIn_records (leads : LeadsTo path words) (isRoot : IsName root) (classes : List RecordClass) :
    classesIn (openingBlocks points path used rootName ++
      (constantBlocks table ++ (classBlocks classes ++ functionBlocks root))) = classes.map (·.className) := by
  rw [classesIn, ← filterMap_filter_isSome, ← classStatements, classStatements_records leads isRoot,
    List.filterMap_map, ← List.filterMap_eq_map]
  rfl

/-! ### Records modules -/

/-- Names are read in some form, but those of ASCII and those of the classes of the schema as they are. -/
structure KeepsNames (s : Schema) (read : String → String) : Prop where
  ascii : KeepsAscii read
  classes : ∀ className ∈ s.enumerations.map Enumerated.className ++ s.declared.map ComplexType.className,
    read className = className

theorem map_read_eq {read : String → String} {names : List String} (each : ∀ name ∈ names, read name = name) :
    names.map read = names :=
  (List.map_congr_left each).trans (List.map_id' _)

namespace Emitted

variable {m : ModuleSource} {modulePath : String} {types : List ComplexType} {package : Label}
  {read : String → String} {moduleName : String} {c : RecordClass}

def statements (points : List Nat) (path : List Token) (used : List String) (rootName root : String)
    (table : CodecTable) (classes : List RecordClass) : List Block :=
  openingBlocks points path used rootName ++
    (constantBlocks table ++ (classBlocks classes ++ functionBlocks root))

theorem isRootName (h : Emitted s m modulePath root used table types classes) (readable : Readable s package) :
    IsName root := isName_root readable.named readable.sound.closed h.isRoot

theorem exists_type (h : Emitted s m modulePath root used table types classes) (readable : Readable s package)
    (member : c ∈ classes) : ∃ t ∈ s.declared, c.Of s table t ∧ c.Worded c.uses := by
  obtain ⟨t, isType, ofType⟩ := exists_of_forall₂_left h.ofTypes.flip member
  have declared := (h.types_perm readable.sound.closed).subset isType
  exact ⟨t, declared, ofType, worded_class readable.named readable.sound h.grown declared ofType⟩

theorem classNames_perm (h : Emitted s m modulePath root used table types classes)
    (readable : Readable s package) :
    (classes.map (·.className)).Perm (s.declared.map ComplexType.className) := by
  have named : types.map ComplexType.className = classes.map (·.className) :=
    map_eq_of_forall₂ h.ofTypes fun t c ofType => ofType.className
  rw [← named]
  exact (h.types_perm readable.sound.closed).map _

theorem mem_used_iff (h : Emitted s m modulePath root used table types classes)
    (readable : Readable s package) {className : String} :
    className ∈ used ↔ ∃ t ∈ s.declared, HoldsTagsOf t className :=
  (usedEnums_spec readable.sound.regular h.isUsed).2 className

theorem used_subset (h : Emitted s m modulePath root used table types classes)
    (readable : Readable s package) : used ⊆ s.enumerations.map Enumerated.className := by
  intro className member
  obtain ⟨t, declared, holds⟩ := (h.mem_used_iff readable).mp member
  exact mem_enumClasses_of_holds readable.sound.closed declared holds

theorem binds_statements (h : Emitted s m modulePath root used table types classes)
    (readable : Readable s package) (leads : LeadsTo path words) :
    (statements points path used rootName root table classes).flatMap Block.binds = m.boundNames := by
  have imports : (enumImportsOf modulePath used).flatMap Declaration.boundNames = used :=
    flatMap_enumImportsOf rfl used
  have ofClasses : (classes.map Declaration.recordClass).flatMap Declaration.boundNames =
      classes.map (·.className) := by
    rw [List.flatMap_map, List.map_eq_flatMap]
    rfl
  have functions : ((documentFunctions root).map Declaration.function).flatMap Declaration.boundNames =
      functionNames := rfl
  rw [boundNames, h.declarations, statements]
  simp only [List.flatMap_append, List.flatMap_cons, binds_openingBlocks leads,
    binds_constantBlocks h.grown.private_names, binds_classBlocks,
    (views_functionBlocks (h.isRootName readable)).1, imports, boundNames_constantsOf, ofClasses, functions,
    List.append_assoc]
  rfl

theorem mem_binds (h : Emitted s m modulePath root used table types classes) (readable : Readable s package)
    (leads : LeadsTo path words) {name : String}
    (member : name ∈ (statements points path used rootName root table classes).flatMap Block.binds) :
    name ∈ (standardImports.flatMap (·.declarations)).flatMap Declaration.boundNames ∨ name ∈ used ∨
      name = "ROOT_ELEMENT" ∨ name ∈ table.names ∨ name ∈ classes.map (·.className) ∨ name ∈ functionNames := by
  rw [statements] at member
  simpa only [List.flatMap_append, binds_openingBlocks leads, binds_constantBlocks h.grown.private_names,
    binds_classBlocks, (views_functionBlocks (h.isRootName readable)).1, List.mem_append, List.mem_singleton,
    or_assoc] using member

theorem read_boundNames (h : Emitted s m modulePath root used table types classes)
    (readable : Readable s package) (kept : KeepsNames s read) (leads : LeadsTo path words) :
    ∀ name ∈ (statements points path used rootName root table classes).flatMap Block.binds, read name = name := by
  have own := isAscii_own h.grown
  have fixed : ∀ name ∈ (standardImports.flatMap (·.declarations)).flatMap Declaration.boundNames ++
      ["ROOT_ELEMENT"], IsAscii name := by decide
  intro name member
  rcases h.mem_binds readable leads member with standard | isUsed | isRoot | isConstant | isClass | isFunction
  · exact kept.ascii name (fixed name (List.mem_append_left _ standard))
  · exact kept.classes name (List.mem_append_left _ (h.used_subset readable isUsed))
  · exact kept.ascii name (fixed name (List.mem_append_right _ (List.mem_singleton.mpr isRoot)))
  · exact kept.ascii name (own name (List.mem_append_left _ isConstant))
  · exact kept.classes name (List.mem_append_right _ ((h.classNames_perm readable).subset isClass))
  · exact kept.ascii name (own name (List.mem_append_right _ (List.mem_append_right _ isFunction)))

theorem isPrivate_constant (h : Emitted s m modulePath root used table types classes)
    (readable : Readable s package) (apart : NamelessApart s) :
    ∀ name ∈ table.names, isPrivate name = false := by
  have closed := readable.sound.closed
  intro name member
  rw [Bool.eq_false_iff]
  intro hidden
  obtain ⟨⟨_, term⟩, inside, rfl⟩ := List.mem_map.mp member
  obtain ⟨className, other, differs, nameless, nameless', own, own'⟩ := exists_nameless h.grown inside hidden
  obtain ⟨t, declared, holds⟩ := (h.converted_iff closed).mp own
  obtain ⟨u, declared', holds'⟩ := (h.converted_iff closed).mp own'
  exact differs (apart t declared u declared' _ _ holds holds' nameless nameless')

theorem mem_names_of_uses (h : Emitted s m modulePath root used table types classes)
    (readable : Readable s package) (member : c ∈ classes) {name : String} (uses : c.uses.codecs name) :
    name ∈ table.names := by
  obtain ⟨t, _, ofType, _⟩ := h.exists_type readable member
  obtain ⟨f, isField, default, isSimple⟩ := uses
  obtain ⟨_, _, _, _, _, _, shows⟩ := ofType.exists_shows isField
  have content := shows.content
  rw [isSimple] at content
  cases content with
  | simple _ named => exact named.mem_names

theorem mem_names_of_term {term : CodecTerm} {mentioned : String} (member : mentioned ∈ names false term.tokens) :
    mentioned = "values" ∨ term = .enumeration mentioned ∨ term = .list (.constant mentioned) := by
  cases term with
  | enumeration className =>
    have either : mentioned = "values" ∨ mentioned = className := by
      simpa [CodecTerm.tokens, names] using member
    exact either.imp_right fun same => .inl (by rw [same])
  | list item =>
    cases item with
    | builtIn p => exact .inl (by simpa [CodecTerm.tokens, CodecName.tokens, names] using member)
    | constant inner =>
      have either : mentioned = "values" ∨ mentioned = inner := by
        simpa [CodecTerm.tokens, CodecName.tokens, names] using member
      exact either.imp_right fun same => .inr (by rw [same])

theorem mem_binds_of_value (h : Emitted s m modulePath root used table types classes)
    (readable : Readable s package) (leads : LeadsTo path words) {earlier later : List (String × CodecTerm)}
    {name : String} {term : CodecTerm} (split : table.definitions = earlier ++ (name, term) :: later)
    {mentioned : String} (member : mentioned ∈ names false term.tokens) : mentioned ∈
      (openingBlocks points path used rootName ++ constantBlocks ⟨earlier⟩).flatMap Block.binds := by
  have inside : (name, term) ∈ table.definitions := split ▸ List.mem_append_right _ List.mem_cons_self
  have whole : table = ⟨earlier ++ (name, term) :: later⟩ := by rw [← split]
  have own : ∀ constant ∈ CodecTable.names ⟨earlier⟩, CodecTable.Private constant := by
    intro constant early
    refine h.grown.private_names constant ?_
    rw [CodecTable.names, split, List.map_append]
    exact List.mem_append_left _ early
  rw [List.flatMap_append, binds_openingBlocks leads, binds_constantBlocks own]
  rcases mem_names_of_term member with rfl | rfl | rfl
  · have values : "values" ∈ (standardImports.flatMap (·.declarations)).flatMap Declaration.boundNames := by
      decide
    exact List.mem_append_left _ (List.mem_append_left _ values)
  · have isUsed := (h.mem_used_iff readable).mpr ((h.converted_iff readable.sound.closed).mp ⟨name, inside⟩)
    exact List.mem_append_left _ (List.mem_append_right _ (List.mem_append_left _ isUsed))
  · exact List.mem_append_right _ ((whole ▸ h.grown).mem_before (by simp [CodecTerm.pieces]))

theorem exists_assignment (h : Emitted s m modulePath root used table types classes)
    (readable : Readable s package) (leads : LeadsTo path words) {name : String} (member : name ∈ table.names) :
    ∃ (first : List Block) (constant : Block) (rest : List Block) (value : List Token),
      openingBlocks points path used rootName ++ constantBlocks table = first ++ constant :: rest ∧
      constant.assignment? = some (name, value) ∧ (∀ other ∈ first, other.className? = none) ∧
      ∀ mentioned ∈ names false value, mentioned ∈ first.flatMap Block.binds := by
  obtain ⟨⟨name, term⟩, inside, rfl⟩ := List.mem_map.mp member
  obtain ⟨earlier, later, split⟩ := List.append_of_mem inside
  have own := h.grown.private_names name member
  refine ⟨openingBlocks points path used rootName ++ constantBlocks ⟨earlier⟩, constantBlock name term.tokens,
    constantBlocks ⟨later⟩, term.tokens, ?_, (views_constantBlock own _).1, ?_,
    fun mentioned => h.mem_binds_of_value readable leads split⟩
  · rw [constantBlocks, split]
    simp [constantBlocks]
  · exact List.forall_mem_append.mpr ⟨className?_openingBlocks leads, className?_constantBlocks⟩

/-! ### Enumerations of records modules -/

theorem importsFrom_eq_nil {bs : List Block} (none : ∀ b ∈ bs, b.import? = none) :
    importsFrom moduleName bs = [] :=
  List.flatMap_eq_nil_iff.mpr fun b member => by rw [none b member]

theorem importsFrom_statements (h : Emitted s m modulePath root used table types classes)
    (readable : Readable s package) (leads : LeadsTo path (words ++ [moduleName ++ "_enums"])) :
    importsFrom (moduleName ++ "_enums") (statements points path used rootName root table classes) = used := by
  -- No fixed import is from a module that is called like one of enumerations.
  have standard : importsFrom (moduleName ++ "_enums") standardBlocks = [] := by
    have other : ∀ b ∈ standardBlocks, ∃ path names last, b.import? = some (path, names) ∧
        path.getLast? = some last ∧ ¬ "_enums".toList <:+ last.toList := by
      simp only [standardBlocks, List.forall_mem_cons]
      refine ⟨⟨_, _, _, rfl, rfl, ?_⟩, ⟨_, _, _, rfl, rfl, ?_⟩, ⟨_, _, _, rfl, rfl, ?_⟩, ⟨_, _, _, rfl, rfl, ?_⟩,
        ⟨_, _, _, rfl, rfl, ?_⟩, ⟨_, _, _, rfl, rfl, ?_⟩, ⟨_, _, _, rfl, rfl, ?_⟩, ⟨_, _, _, rfl, rfl, ?_⟩,
        List.forall_mem_nil _⟩ <;> decide
    refine List.flatMap_eq_nil_iff.mpr fun b member => ?_
    obtain ⟨path, names, last, isImport, isLast, differs⟩ := other b member
    rw [isImport]
    refine if_neg fun same => differs ?_
    rw [isLast, Option.some.injEq] at same
    rw [same, String.toList_append]
    exact List.suffix_append _ _
  have imports : importsFrom (moduleName ++ "_enums") (enumImportBlocks path used) = used := by
    refine flatMap_enumImportBlocks id fun b member => ?_
    rw [(views_enumImportBlocks leads b member).1]
    exact if_pos List.getLast?_concat
  have constants := @importsFrom_eq_nil (moduleName ++ "_enums") (constantBlocks table) fun b member => by
    obtain ⟨entry, inside, rfl⟩ := List.mem_map.mp member
    exact (views_constantBlock (h.grown.private_names _ (List.mem_map_of_mem (f := (·.1)) inside)) _).2.2.2
  have ofClasses := @importsFrom_eq_nil (moduleName ++ "_enums") (classBlocks classes) fun b member => by
    obtain ⟨c, _, inside⟩ := List.mem_flatMap.mp member
    rcases List.mem_pair.mp inside with rfl | rfl <;> rfl
  have functions := @importsFrom_eq_nil (moduleName ++ "_enums") (functionBlocks root) fun b member =>
    ((views_functionBlocks (h.isRootName readable)).2 b member).2.2
  unfold importsFrom at standard imports constants ofClasses functions ⊢
  simp only [statements, openingBlocks, List.flatMap_append, List.flatMap_cons, standard, imports, constants,
    ofClasses, functions, List.append_nil]
  exact List.append_nil used

/-- The values of constants are those of the table and the name of the root element. -/
theorem valueNames_statements (h : Emitted s m modulePath root used table types classes)
    (readable : Readable s package) (leads : LeadsTo path words) :
    valueNames (statements points path used rootName root table classes) =
      table.definitions.flatMap fun entry => names false entry.2.tokens := by
  have none {bs : List Block} (each : ∀ b ∈ bs, b.assignment? = none) : bs.filterMap Block.assignment? = [] :=
    List.filterMap_eq_nil_iff.mpr each
  have standard : standardBlocks.filterMap Block.assignment? = [] := none (by decide)
  have imports : (enumImportBlocks path used).filterMap Block.assignment? = [] :=
    none fun b member => (views_enumImportBlocks leads b member).2.2.2
  have ofClasses : (classBlocks classes).filterMap Block.assignment? = [] := none fun b member => by
    obtain ⟨c, _, inside⟩ := List.mem_flatMap.mp member
    rcases List.mem_pair.mp inside with rfl | rfl <;> rfl
  have functions : (functionBlocks root).filterMap Block.assignment? = [] :=
    none fun b member => ((views_functionBlocks (h.isRootName readable)).2 b member).2.1
  have constants : (constantBlocks table).filterMap Block.assignment? =
      table.definitions.map fun entry => (entry.1, entry.2.tokens) := by
    rw [constantBlocks, List.filterMap_map, ← List.filterMap_eq_map']
    refine List.filterMap_congr fun entry member => ?_
    exact (views_constantBlock (h.grown.private_names _ (List.mem_map_of_mem (f := (·.1)) member)) _).1
  have assigned : (statements points path used rootName root table classes).filterMap Block.assignment? =
      ("ROOT_ELEMENT", [.literal (Text.writtenPoints rootName)]) ::
        table.definitions.map fun entry => (entry.1, entry.2.tokens) := by
    simp only [statements, openingBlocks, List.filterMap_append, List.filterMap_cons, standard, imports,
      constants, ofClasses, functions, List.append_nil]
    rfl
  rw [valueNames, assigned, List.flatMap_cons, List.flatMap_map]
  rfl

theorem mem_valueNames_iff (h : Emitted s m modulePath root used table types classes)
    (readable : Readable s package) (leads : LeadsTo path words) {className : String}
    (isClass : IsClassName className) :
    className ∈ valueNames (statements points path used rootName root table classes) ↔ className ∈ used := by
  rw [h.valueNames_statements readable leads, List.mem_flatMap, h.mem_used_iff readable,
    ← h.converted_iff readable.sound.closed]
  constructor
  · rintro ⟨⟨constant, term⟩, inside, mentioned⟩
    rcases mem_names_of_term mentioned with rfl | rfl | rfl
    · have common : isCommon "values" = true := isCommon_items.2.2.2.2.2.2
      rw [isClass.isCommon_eq] at common
      cases common
    · exact ⟨constant, inside⟩
    · exact absurd (h.grown.private_names _ (h.grown.mem_names_of_list inside)).start isClass.head?_ne
  · rintro ⟨constant, inside⟩
    exact ⟨_, inside, by simp [CodecTerm.tokens, names]⟩

theorem read_valueNames (h : Emitted s m modulePath root used table types classes)
    (readable : Readable s package) (kept : KeepsNames s read) (leads : LeadsTo path words) :
    ∀ name ∈ valueNames (statements points path used rootName root table classes), read name = name := by
  rw [h.valueNames_statements readable leads]
  intro name member
  obtain ⟨⟨constant, term⟩, inside, mentioned⟩ := List.mem_flatMap.mp member
  rcases mem_names_of_term mentioned with rfl | rfl | rfl
  · exact kept.ascii _ (by decide)
  · exact kept.classes _ (List.mem_append_left _ (h.mem_enumClasses readable.sound.closed inside))
  · exact kept.ascii _ (isAscii_own h.grown _ (List.mem_append_left _ (h.grown.mem_names_of_list inside)))

/-- The annotation of a field names the enumeration whose tags it holds. -/
theorem mem_names_annotation_iff (readable : Readable s package) {t : ComplexType} (declared : t ∈ s.declared)
    (ofType : c.Of s table t) {f : FieldSource} (member : f ∈ c.fields) {className : String}
    (isEnum : className ∈ s.enumerations.map Enumerated.className) :
    className ∈ names false (FieldSource.annotationTokens f.occurrence ((rowTokens? f.item).getD [])) ↔
      Piece.enumClass className ∈ f.item := by
  have isClass := readable.isClassName (List.mem_append_left _ isEnum)
  obtain ⟨type, _, _, _, _, _, shows⟩ := ofType.exists_shows member
  obtain ⟨_, tokens, item, named⟩ := @exists_phrase_itemType s ⟨f.Mentions, fun _ => True⟩ _ _ shows.item
    fun other mentions => by
      obtain ⟨isEnum, isType⟩ := mem_classes_of_mentions readable.sound declared ofType member other
      exact ⟨isWordText_of_isName (readable.named.isName (List.mem_append.mpr (mentions.imp isEnum isType))),
        mentions⟩
  rw [item.row, Option.getD_some]
  constructor
  · intro mentioned
    rcases (FieldSource.phrase_annotation item).fine.names className mentioned with common | isEnum | isRecord
    · rw [isClass.isCommon_eq] at common
      cases common
    · exact isEnum
    · have isType := (mem_classes_of_mentions readable.sound declared ofType member className).2 isRecord
      obtain ⟨u, inside, rfl⟩ := List.mem_map.mp isType
      exact absurd isEnum (apart_of_validate readable.valid u inside)
  · intro mentions
    have inside := named className mentions
    unfold FieldSource.annotationTokens
    cases f.occurrence with
    | once => exact inside
    | optional => exact mem_names_append_left inside _
    | repeated =>
      refine mem_names_append_left ?_ _
      rw [names_append (by simp)]
      exact List.mem_append_right _ inside

theorem mem_annotationNames (h : Emitted s m modulePath root used table types classes)
    (readable : Readable s package) (leads : LeadsTo path words) {name : String} :
    name ∈ annotationNames (statements points path used rootName root table classes) ↔
      ∃ c ∈ classes, ∃ f ∈ c.fields,
        name ∈ names false (FieldSource.annotationTokens f.occurrence ((rowTokens? f.item).getD [])) := by
  rw [annotationNames, statements, classStatements_records leads (h.isRootName readable), List.flatMap_map,
    List.mem_flatMap]
  refine exists_congr fun c => and_congr_right fun member => ?_
  obtain ⟨_, _, _, worded⟩ := h.exists_type readable member
  rw [RecordClass.annotation?_inner worded, List.flatMap_map, List.mem_flatMap]

theorem mem_annotationNames_iff (h : Emitted s m modulePath root used table types classes)
    (readable : Readable s package) (leads : LeadsTo path words) {className : String}
    (isEnum : className ∈ s.enumerations.map Enumerated.className) :
    className ∈ annotationNames (statements points path used rootName root table classes) ↔ className ∈ used := by
  rw [h.mem_annotationNames readable leads, h.mem_used_iff readable]
  constructor
  · rintro ⟨c, member, f, isField, mentioned⟩
    obtain ⟨t, declared, ofType, _⟩ := h.exists_type readable member
    have mentions := (mem_names_annotation_iff readable declared ofType isField isEnum).mp mentioned
    obtain ⟨type, isType, _, _, _, _, shows⟩ := ofType.exists_shows isField
    exact ⟨t, declared, type, isType, (enumClass_mem_itemType_iff shows.item).mp mentions⟩
  · rintro ⟨t, declared, type, isType, holds⟩
    have isType' := (h.types_perm readable.sound.closed).mem_iff.mpr declared
    obtain ⟨c, member, ofType⟩ := exists_of_forall₂_left h.ofTypes isType'
    obtain ⟨f, isField, isItem, _⟩ := ofType.exists_field isType
    have mentions := (enumClass_mem_itemType_iff isItem).mpr holds
    exact ⟨c, member, f, isField, (mem_names_annotation_iff readable declared ofType isField isEnum).mpr mentions⟩

/-! ### What classes use -/

theorem fine_of_mem_classes (h : Emitted s m modulePath root used table types classes)
    (readable : Readable s package) (member : c ∈ classes) : ∀ l ∈ c.classBlock.body, Fine c.uses l.tokens := by
  obtain ⟨_, _, _, worded⟩ := h.exists_type readable member
  exact RecordClass.fine_classBlock worded

theorem read_of_mem_body (h : Emitted s m modulePath root used table types classes)
    (readable : Readable s package) (kept : KeepsNames s read) (member : c ∈ classes) {l : SourceText.Line}
    (inside : l ∈ c.classBlock.body) : ∀ name ∈ names false l.tokens, read name = name := by
  obtain ⟨t, declared, ofType, _⟩ := h.exists_type readable member
  intro name isName
  rcases (h.fine_of_mem_classes readable member l inside).names name isName with
    common | rfl | ⟨f, isField, mentions⟩
  · refine kept.ascii name fun d isIn => ?_
    exact of_decide_eq_true (List.all_eq_true.mp ((Bool.and_eq_true _ _).mp common).1 d isIn)
  · exact kept.classes _
      (List.mem_append_right _ ((h.classNames_perm readable).subset (List.mem_map_of_mem member)))
  · obtain ⟨isEnum, isType⟩ := mem_classes_of_mentions readable.sound declared ofType isField name
    exact kept.classes name (List.mem_append.mpr (mentions.imp isEnum isType))

theorem read_annotationNames (h : Emitted s m modulePath root used table types classes)
    (readable : Readable s package) (kept : KeepsNames s read) (leads : LeadsTo path words) :
    ∀ name ∈ annotationNames (statements points path used rootName root table classes), read name = name := by
  intro name isName
  obtain ⟨c, member, f, isField, isName⟩ := (h.mem_annotationNames readable leads).mp isName
  obtain ⟨_, _, _, worded⟩ := h.exists_type readable member
  have line : shift 4 (RecordClass.fieldLine f) ∈ c.classBlock.body := by
    rw [RecordClass.classBlock, (RecordClass.reads_body worded).1.eq]
    exact List.mem_map_of_mem
      (List.mem_append_left _ (List.mem_append_right _ (List.mem_map_of_mem isField)))
  exact h.read_of_mem_body readable kept member line name (List.mem_cons_of_mem _ isName)

/-- The constants that a class calls are assigned before it, as they are read there. -/
theorem constants_closed (h : Emitted s m modulePath root used table types classes)
    (readable : Readable s package) (apart : NamelessApart s) (kept : KeepsNames s read) (leads : LeadsTo path words)
    {before after : List Block} {b : Block} {own : String}
    (split : statements points path used rootName root table classes = before ++ b :: after)
    (isClass : b.className? = some own) {l : SourceText.Line} (inside : l ∈ b.body) {call : String × String}
    (isCall : call ∈ calls [] l.tokens) (isMethod : call.2 ∈ codecMethods) :
    ∃ (first : List Block) (constant : Block) (rest : List Block) (name : String) (value : List Token),
      before = first ++ constant :: rest ∧ constant.assignment? = some (name, value) ∧
      read name = inClass read own call.1 ∧ (∀ other ∈ first, other.className? = none) ∧
      ∀ used ∈ names false value, read used ∈ (first.flatMap Block.binds).map read := by
  obtain ⟨earlier, c, later, isClasses, rfl, rfl⟩ :=
    exists_class_of_split leads (h.isRootName readable) isClass split
  have member : c ∈ classes := isClasses ▸ List.mem_append_right _ List.mem_cons_self
  have uses := (h.fine_of_mem_classes readable member l inside).calls [] (by simp) call isCall isMethod
  have isConstant := h.mem_names_of_uses readable member uses
  have ascii := kept.ascii call.1 (isAscii_own h.grown call.1 (List.mem_append_left _ isConstant))
  obtain ⟨first, constant, rest, value, isStart, isValue, outside, bound⟩ :=
    h.exists_assignment readable leads isConstant
  refine ⟨first, constant, rest ++ (classBlocks earlier ++ [RecordClass.decoratorBlock]), call.1, value, ?_,
    isValue, ?_, outside, fun mentioned isMentioned => List.mem_map_of_mem (bound mentioned isMentioned)⟩
  · rw [← List.append_assoc, isStart, List.append_assoc, List.cons_append]
  · rw [inClass, ascii, mangle_eq_self (h.isPrivate_constant readable apart call.1 isConstant)]

/-- The classes that a class uses are that class and classes before it, as they are read there. -/
theorem classes_ordered (h : Emitted s m modulePath root used table types classes)
    (readable : Readable s package) (kept : KeepsNames s read) (leads : LeadsTo path words)
    {before after : List Block} {b : Block} {own : String}
    (split : statements points path used rootName root table classes = before ++ b :: after)
    (isClass : b.className? = some own) {l : SourceText.Line} (inside : l ∈ b.body) {name : String}
    (isName : name ∈ names false l.tokens)
    (isRecord : inClass read own name ∈ s.declared.map ComplexType.className) :
    inClass read own name = read own ∨ inClass read own name ∈ (classesIn before).map read := by
  obtain ⟨earlier, c, later, isClasses, rfl, rfl⟩ :=
    exists_class_of_split leads (h.isRootName readable) isClass split
  obtain rfl := Option.some.inj isClass
  have member : c ∈ classes := isClasses ▸ List.mem_append_right _ List.mem_cons_self
  obtain ⟨t, declared, ofType, _⟩ := h.exists_type readable member
  have meant := readable.isClassName (List.mem_append_right _ isRecord)
  -- Names of classes mean themselves in every class.
  have plain {name : String} (isOwn : name ∈ s.enumerations.map Enumerated.className ++
      s.declared.map ComplexType.className) : inClass read c.className name = name := by
    rw [inClass, kept.classes name isOwn, mangle_eq_self (readable.isClassName isOwn).isPrivate_eq]
  rcases (h.fine_of_mem_classes readable member l inside).names name isName with
    common | rfl | ⟨f, isField, isEnum | isType⟩
  · -- A common word means itself or something private, and neither is called like a class.
    rw [inClass, h.read_of_mem_body readable kept member inside name isName] at meant
    cases hidden : isPrivate name with
    | true => exact absurd (head?_mangle hidden) meant.head?_ne
    | false =>
      rw [mangle_eq_self hidden] at meant
      rw [meant.isCommon_eq] at common
      cases common
  · have isOwn : c.className ∈ s.declared.map ComplexType.className :=
      (h.classNames_perm readable).subset (List.mem_map_of_mem member)
    rw [plain (List.mem_append_right _ isOwn), kept.classes _ (List.mem_append_right _ isOwn)]
    exact .inl rfl
  · have isEnum := (mem_classes_of_mentions readable.sound declared ofType isField name).1 isEnum
    rw [plain (List.mem_append_left _ isEnum)] at isRecord
    obtain ⟨u, isDeclared, rfl⟩ := List.mem_map.mp isRecord
    exact absurd isEnum (apart_of_validate readable.valid u isDeclared)
  · have isOwn := (mem_classes_of_mentions readable.sound declared ofType isField name).2 isType
    obtain ⟨other, isBefore, rfl⟩ :=
      h.exists_before readable.sound.closed readable.sound.regular isClasses isField isType
    rw [plain (List.mem_append_right _ isOwn)]
    refine .inr (List.mem_map.mpr ⟨other.className, ?_, kept.classes _ (List.mem_append_right _ isOwn)⟩)
    refine List.mem_filterMap.mpr ⟨other.classBlock, ?_, rfl⟩
    refine List.mem_append_right _ (List.mem_append_right _ (List.mem_append_left _ ?_))
    exact List.mem_flatMap.mpr ⟨other, isBefore, List.mem_cons_of_mem _ List.mem_cons_self⟩

/-- A records module is closed, together with a module that has a class for each enumeration. -/
theorem closed (h : Emitted s m modulePath root used table types classes) (readable : Readable s package)
    (apart : NamelessApart s) (kept : KeepsNames s read) (leads : LeadsTo path (words ++ [moduleName ++ "_enums"]))
    (distinct : m.boundNames.Nodup) {enums : List Block}
    (isEnums : classesIn enums = s.enumerations.map Enumerated.className) :
    Closed read s (moduleName ++ "_enums") enums
      (statements points path used rootName root table classes) := by
  have isUsed : importsFrom (moduleName ++ "_enums")
      (statements points path used rootName root table classes) = used :=
    h.importsFrom_statements readable leads
  have isRecords : classesIn (statements points path used rootName root table classes) =
      classes.map (·.className) := classesIn_records leads (h.isRootName readable) classes
  have perm := h.classNames_perm readable
  -- All names in question are read as they are, so it is enough to compare them as they are written.
  have keptEnums : ∀ className ∈ s.enumerations.map Enumerated.className, read className = className :=
    fun className member => kept.classes className (List.mem_append_left _ member)
  have keptTypes : ∀ className ∈ classes.map (·.className), read className = className :=
    fun className member => kept.classes className (List.mem_append_right _ (perm.subset member))
  have keptUsed := map_read_eq fun className member => keptEnums className (h.used_subset readable member)
  refine ⟨?_, fun before after b own split isClass l inside call isCall isMethod =>
    h.constants_closed readable apart kept leads split isClass inside isCall isMethod, ?_, ?_, ?_,
    isRecords ▸ perm, ?_⟩
  · rw [map_read_eq (h.read_boundNames readable kept leads), h.binds_statements readable leads]
    exact distinct
  · rw [isUsed, isEnums, keptUsed, map_read_eq keptEnums]
    exact h.used_subset readable
  · intro className member
    rw [isEnums, map_read_eq keptEnums] at member
    rw [isUsed, keptUsed, map_read_eq (h.read_annotationNames readable kept leads)]
    exact (h.mem_annotationNames_iff readable leads member).symm
  · intro className member
    rw [isEnums, map_read_eq keptEnums] at member
    rw [isUsed, keptUsed, map_read_eq (h.read_valueNames readable kept leads)]
    exact (h.mem_valueNames_iff readable leads (readable.isClassName (List.mem_append_left _ member))).symm
  · intro before after b own split isClass l inside name isName isRecord
    rw [isRecords, map_read_eq keptTypes] at isRecord
    exact h.classes_ordered readable kept leads split isClass inside isName (perm.subset isRecord)

theorem mem_binds_of_closed (h : Emitted s m modulePath root used table types classes)
    (readable : Readable s package) {enums : List Block} {enumsName : String}
    (closed : Closed read s enumsName enums (statements points path used rootName root table classes))
    (member : c ∈ classes) {f : FieldSource} (isField : f ∈ c.attributes) {name : String} {default : Option String}
    (isSimple : f.content = .simple (.constant name) default) : ∃ bound ∈
      (statements points path used rootName root table classes).flatMap Block.binds,
        read bound = inClass read c.className name := by
  obtain ⟨_, _, _, worded⟩ := h.exists_type readable member
  obtain ⟨l, inside, isCall⟩ := RecordClass.exists_parse worded isField isSimple
  have isClass : c.classBlock ∈ statements points path used rootName root table classes := by
    refine List.mem_append_right _ (List.mem_append_right _ (List.mem_append_left _ ?_))
    exact List.mem_flatMap.mpr ⟨c, member, List.mem_cons_of_mem _ List.mem_cons_self⟩
  obtain ⟨before, after, split⟩ := List.append_of_mem isClass
  have isMethod : "parse" ∈ codecMethods := by decide
  obtain ⟨first, constant, rest, bound, value, rfl, isValue, same, _⟩ :=
    closed.constants before c.classBlock after c.className split rfl l inside _ isCall isMethod
  refine ⟨bound, List.mem_flatMap.mpr ⟨constant, ?_, by simp [Block.binds, isValue]⟩, same⟩
  rw [split]
  exact List.mem_append_left _ (List.mem_append_right _ List.mem_cons_self)

end Emitted

/-! ### Generated modules -/

theorem classesIn_enums {enumClasses : List EnumClass}
    (ofEnumerations : List.Forall₂ (fun e c => c.Of e) s.enumerations enumClasses) :
    classesIn (docStatement points :: baseImport :: enumClasses.map EnumClass.classBlock) =
      s.enumerations.map Enumerated.className := by
  have named : s.enumerations.map Enumerated.className = enumClasses.map (·.className) :=
    map_eq_of_forall₂ ofEnumerations fun e c ofEnumeration => ofEnumeration.className
  have own : (enumClasses.map EnumClass.classBlock).filterMap Block.className? = enumClasses.map (·.className) := by
    rw [List.filterMap_map, ← List.filterMap_eq_map']
    rfl
  rw [named, ← own]
  rfl

/-- What is read from the files generated for a loaded schema: a class for each enumeration, and the statements
of a records module, which binds no name twice. -/
theorem exists_statements_of_generate {definition : Json} {source : Label} {package : Option String}
    {files : List File} (loaded : load definition source = .ok s) (generated : generate s package = .ok files)
    (named : WellNamed s ((package.map Json.text).getD s.package)) :
    Readable s ((package.map Json.text).getD s.package) ∧
    ∃ name enums es m modulePath points path words rootName root used table types classes,
      s.name = .text name ∧
      files = [⟨Identifier.module name ++ "_enums.py", enums⟩, ⟨Identifier.module name ++ ".py", m.print⟩] ∧
      read? enums = some es ∧ classesIn es = s.enumerations.map Enumerated.className ∧
      Emitted s m modulePath root used table types classes ∧
      LeadsTo path (words ++ [Identifier.module name ++ "_enums"]) ∧
      read? m.print = some (Emitted.statements points path used rootName root table classes) ∧
      m.boundNames.Nodup := by
  obtain ⟨checked, name, enums, m, isName, isEnums, isRecords, rfl⟩ := generate_eq_ok_iff.mp generated
  obtain ⟨valid, free⟩ := free_of_checkGeneratable checked
  have sound : Sound s := ⟨closed_of_load loaded, (regular_of_load loaded).2⟩
  obtain ⟨_, enumClasses, ofEnumerations, readEnums⟩ := read?_enumsModule named isEnums
  obtain ⟨points, path, words, rootName, root, used, table, types, classes, emitted, leads, readRecords⟩ :=
    read?_recordsModule named sound isName isRecords
  exact ⟨⟨named, sound, valid, free⟩, name, enums.print, _, m, _, points, path, words, rootName, root, used, table,
    types, classes, isName, rfl, readEnums, classesIn_enums ofEnumerations, emitted, leads, readRecords,
    nodup_of_load loaded checked isRecords⟩

/-- The modules generated for a loaded schema are read, and closed as they are read, as long as its names can
be written in source text, are read as they are, and at most one of the enumerations whose tags fields hold
has a name without letters or digits of ASCII. -/
theorem closed_of_generate {definition : Json} {source : Label} {package : Option String} {files : List File}
    {read : String → String} (loaded : load definition source = .ok s)
    (generated : generate s package = .ok files)
    (named : WellNamed s ((package.map Json.text).getD s.package)) (apart : NamelessApart s)
    (kept : KeepsNames s read) : ∃ moduleName enums records es rs,
      files = [⟨moduleName ++ "_enums.py", enums⟩, ⟨moduleName ++ ".py", records⟩] ∧
      read? enums = some es ∧ read? records = some rs ∧ Closed read s (moduleName ++ "_enums") es rs := by
  obtain ⟨readable, name, enums, es, m, _, points, path, words, rootName, root, used, table, types, classes, _, rfl,
    readEnums, isEnums, emitted, leads, readRecords, distinct⟩ :=
    exists_statements_of_generate loaded generated named
  exact ⟨Identifier.module name, enums, m.print, es, _, rfl, readEnums, readRecords,
    emitted.closed readable apart kept leads distinct isEnums⟩

theorem wellNamed_shelf : WellNamed shelfSchema .null where
  classes := by decide
  module := by decide
  package := .inl rfl
  docs := by decide
  root := ⟨"shelf", rfl⟩

theorem closed_shelf : ∃ files, generate shelfSchema none = .ok files ∧
    ∃ moduleName enums records es rs,
      files = [⟨moduleName ++ "_enums.py", enums⟩, ⟨moduleName ++ ".py", records⟩] ∧
      read? enums = some es ∧ read? records = some rs ∧
      Closed id shelfSchema (moduleName ++ "_enums") es rs := by
  obtain ⟨files, generated⟩ := exists_generate_shelf
  have apart : NamelessApart shelfSchema :=
    namelessApart_of_enumerations (closed_of_load load_shelfDefinition) (by decide)
  exact ⟨files, generated, closed_of_generate load_shelfDefinition generated wellNamed_shelf apart
    ⟨fun _ _ => rfl, fun _ _ => rfl⟩⟩

/-- The definition of a schema with one type, which has two attributes that hold tags of enumerations with
nameless classes. -/
def namelessDefinition : Json :=
  .object [
    ("name", .text "sole"),
    ("enums", .array [
      .object [("name", .text "\u0416"), ("values", .array [.text "x"])],
      .object [("name", .text "\u0429"), ("values", .array [.text "x"])]]),
    ("types", .array [.object [
      ("name", .text "Sole"),
      ("attributes", .array [
        .object [("name", .text "first"), ("type", .text "\u0416")],
        .object [("name", .text "second"), ("type", .text "\u0429")]])]]),
    ("root", .object [("element", .text "sole"), ("type", .text "Sole")])]

def namelessSchema : Schema := {
  emptySchema "sole" "Sole" with
  declared := [⟨0, .text "Sole", .text "Sole", none,
    [⟨.text "first", .enumerated ⟨.text "\u0416", ["x"]⟩, false, none⟩,
      ⟨.text "second", .enumerated ⟨.text "\u0429", ["x"]⟩, false, none⟩], []⟩]
  enumerations := [⟨.text "\u0416", ["x"]⟩, ⟨.text "\u0429", ["x"]⟩] }

theorem load_namelessDefinition : load namelessDefinition (.text "sole") = .ok namelessSchema := rfl

/-- The class of the type: the codec of the second attribute has a name that is private to the class. -/
def namelessClass : RecordClass := ⟨"Sole", "Sole", [
  ⟨⟨"first", "first", true, .optional⟩, [.enumClass "\u0416"], .simple (.constant "_") none⟩,
  ⟨⟨"second", "second", true, .optional⟩, [.enumClass "\u0429"], .simple (.constant "__2") none⟩], []⟩

/-- A class calls the codec of its second attribute by a private name, under which the module binds nothing
as it is read in the class. -/
theorem not_closed_nameless : load namelessDefinition (.text "sole") = .ok namelessSchema ∧
    ∃ enums records es rs,
      generate namelessSchema none = .ok [⟨"sole_enums.py", enums⟩, ⟨"sole.py", records⟩] ∧
      read? enums = some es ∧ read? records = some rs ∧
      ∀ read, KeepsNames namelessSchema read → ¬ Closed read namelessSchema "sole_enums" es rs := by
  obtain ⟨files, generated⟩ : ∃ files, generate namelessSchema none = .ok files :=
    exists_generate rfl rfl ⟨_, rfl⟩ ⟨_, rfl⟩
  have named : WellNamed namelessSchema .null :=
    ⟨by decide, by decide +kernel, .inl rfl, by decide +kernel, ⟨"sole", rfl⟩⟩
  obtain ⟨readable, name, enums, es, m, _, points, path, words, rootName, root, used, table, types, classes, isName,
    rfl, readEnums, _, emitted, leads, readRecords, _⟩ :=
    exists_statements_of_generate load_namelessDefinition generated named
  obtain rfl : "sole" = name := Json.text.inj isName
  have isModule : Identifier.module "sole" = "sole" := by decide
  rw [isModule] at generated
  refine ⟨rfl, enums, m.print, es, _, generated, readEnums, readRecords, fun read kept closed => ?_⟩
  obtain rfl := Except.ok.inj (emitted.order.symm.trans rfl)
  have made : recordClassesOf namelessSchema .empty namelessSchema.declared = .ok ([namelessClass],
    ⟨[("_", .enumeration "\u0416"), ("__2", .enumeration "\u0429")]⟩) := rfl
  obtain ⟨rfl, rfl⟩ := Prod.mk.inj (Except.ok.inj (emitted.isClasses.symm.trans made))
  obtain ⟨name, bound, same⟩ := emitted.mem_binds_of_closed readable closed List.mem_cons_self
    (List.mem_cons_of_mem _ List.mem_cons_self) rfl
  have meant : inClass read namelessClass.className "__2" = "_Sole__2" := by
    rw [inClass, namelessClass, kept.ascii "Sole" (by decide), kept.ascii "__2" (by decide)]
    decide
  -- Whatever the module binds is read as it is, and it binds nothing that is called so.
  obtain rfl : name = "_Sole__2" :=
    (emitted.read_boundNames readable kept leads name bound).symm.trans (same.trans meant)
  have apart : "_Sole__2" ∉ namelessSchema.enumerations.map Enumerated.className := by decide
  rcases emitted.mem_binds readable leads bound with standard | isUsed | isRoot | isConstant | isClass | isFunction
  · revert standard
    decide
  · exact apart (emitted.used_subset readable isUsed)
  · exact absurd isRoot (by decide)
  · revert isConstant
    decide
  · revert isClass
    decide
  · revert isFunction
    decide

end XmlRecords.ModuleSource
