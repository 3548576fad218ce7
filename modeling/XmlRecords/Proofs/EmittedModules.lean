import XmlRecords.Proofs.EmittedClasses
import XmlRecords.Proofs.Faithfulness

/-!
The modules generated for a schema: what they declare, in order, and where the classes and enumerations
that fields refer to come from.
-/

set_option autoImplicit false
set_option relaxedAutoImplicit false

namespace XmlRecords.ModuleSource

open Schema
open BoundSchema (textOf_eq_ok_iff perm_of_dependencyOrder)
open CodecTable (innermost?)

/-! ### Declarations -/

def Declaration.Defines (d : Declaration) (name : String) : Prop := ∃ value, d = .constant name value

/-! ### Types of fields -/

def fieldTypes (t : ComplexType) : List DeclaredType :=
  t.attributes.map (·.type) ++ t.elements.map (·.type)

def Flat (type : DeclaredType) : Prop := type.IsSimple ∨ ∃ id, type = .complex id

variable {s : Schema} {table : CodecTable} {t : ComplexType} {c : RecordClass}

theorem flat_of_mem_fieldTypes (regular : t.Regular) {type : DeclaredType}
    (member : type ∈ fieldTypes t) : Flat type := by
  rcases List.mem_append.mp member with inAttributes | inElements
  · obtain ⟨a, inside, rfl⟩ := List.mem_map.mp inAttributes
    exact .inl (regular.attributes a inside)
  · obtain ⟨e, inside, rfl⟩ := List.mem_map.mp inElements
    exact (regular.elements e inside).imp_left .inl

theorem usedEnum?_eq {type : DeclaredType} (flat : Flat type) : usedEnum? type = innermost? type := by
  rcases flat with (single | ⟨item, rfl, single⟩) | ⟨id, rfl⟩
  · cases type with
    | list item => exact single.elim
    | _ => rfl
  · cases item with
    | list inner => exact single.elim
    | _ => rfl
  · rfl

theorem mem_fieldTypes_of_codecTypes {type : DeclaredType} (member : type ∈ codecTypes t) :
    type ∈ fieldTypes t := by
  unfold codecTypes at member
  have element {p q : Schema.Element → Bool}
      (inside : type ∈ ((t.elements.filter p).filter q).map (·.type)) : type ∈ fieldTypes t := by
    obtain ⟨e, kept, rfl⟩ := List.mem_map.mp inside
    exact List.mem_append_right _
      (List.mem_map_of_mem (List.mem_of_mem_filter (List.mem_of_mem_filter kept)))
  rcases List.mem_append.mp member with earlier | repeated
  · rcases List.mem_append.mp earlier with inAttributes | single
    · exact List.mem_append_left _ inAttributes
    · exact element single
  · exact element repeated

theorem classNameOf_eq_ok_iff {label : Label} {className : String} :
    classNameOf label = .ok className ↔
      ∃ name, label = .text name ∧ className = Identifier.recordClass name := by
  simp only [classNameOf, bind_eq_ok_iff, pure, Except.pure, Except.ok.injEq, textOf_eq_ok_iff]
  exact exists_congr fun name => and_congr_right fun _ => eq_comm

/-- The annotation of a type mentions the class of its enumeration and no other. -/
theorem enumClass_mem_itemType_iff {type : DeclaredType} {item : List Piece} {className : String}
    (isItem : itemType s type = .ok item) : Piece.enumClass className ∈ item ↔
      ∃ e name, innermost? type = some e ∧ e.name = .text name ∧
        className = Identifier.recordClass name := by
  induction type generalizing item with
  | primitive p =>
    obtain rfl := Except.ok.inj isItem
    simp [innermost?]
  | enumerated e =>
    simp only [itemType, bind_eq_ok_iff, pure, Except.pure, Except.ok.injEq, classNameOf_eq_ok_iff]
      at isItem
    obtain ⟨_, ⟨name, isName, rfl⟩, rfl⟩ := isItem
    simp [innermost?, isName]
  | list inner ih =>
    simp only [itemType, bind_eq_ok_iff, pure, Except.pure, Except.ok.injEq] at isItem
    obtain ⟨pieces, isInner, rfl⟩ := isItem
    rw [innermost?, ← ih isInner]
    simp
  | complex id =>
    simp only [itemType, bind_eq_ok_iff, pure, Except.pure, Except.ok.injEq] at isItem
    obtain ⟨_, _, rfl⟩ := isItem
    simp [innermost?]

/-- The annotation of a type mentions the class of the complex type that it refers to. -/
theorem recordClass_mem_itemType {type : DeclaredType} {item : List Piece} {className : String}
    (flat : Flat type) (isItem : itemType s type = .ok item)
    (member : Piece.recordClass className ∈ item) : ∃ id, type = .complex id ∧
      classNameOf (((s.type? id).map (·.qualifiedName)).getD .null) = .ok className := by
  have single {type : DeclaredType} {item : List Piece} (single : type.IsSingle)
      (isItem : itemType s type = .ok item) : Piece.recordClass className ∉ item := by
    cases type with
    | primitive p =>
      obtain rfl := Except.ok.inj isItem
      simp
    | enumerated e =>
      simp only [itemType, bind_eq_ok_iff, pure, Except.pure, Except.ok.injEq] at isItem
      obtain ⟨_, _, rfl⟩ := isItem
      simp
    | list inner => exact single.elim
    | complex id => exact single.elim
  rcases flat with (isSingle | ⟨inner, rfl, isSingle⟩) | ⟨id, rfl⟩
  · exact absurd member (single isSingle isItem)
  · simp only [itemType, bind_eq_ok_iff, pure, Except.pure, Except.ok.injEq] at isItem
    obtain ⟨pieces, isInner, rfl⟩ := isItem
    exact absurd (by simpa using member) (single isSingle isInner)
  · simp only [itemType, bind_eq_ok_iff, pure, Except.pure, Except.ok.injEq] at isItem
    obtain ⟨known, isKnown, rfl⟩ := isItem
    simp only [List.mem_singleton, Piece.recordClass.injEq] at member
    exact ⟨id, rfl, member ▸ isKnown⟩

/-! ### Fields of classes -/

theorem RecordClass.Of.exists_shows (h : c.Of s table t) {f : FieldSource} (member : f ∈ c.fields) :
    ∃ type ∈ fieldTypes t, ∃ name isAttribute occurrence default,
      f.Shows s table name type isAttribute occurrence default := by
  rcases List.mem_append.mp member with inAttributes | inElements
  · obtain ⟨a, inside, shows⟩ := exists_of_forall₂_left h.attributes.flip inAttributes
    exact ⟨a.type, List.mem_append_left _ (List.mem_map_of_mem inside), _, _, _, _, shows⟩
  · obtain ⟨e, inside, shows⟩ := exists_of_forall₂_left h.elements.flip inElements
    exact ⟨e.type, List.mem_append_right _ (List.mem_map_of_mem inside), _, _, _, _, shows⟩

theorem RecordClass.Of.exists_field (h : c.Of s table t) {type : DeclaredType}
    (member : type ∈ fieldTypes t) :
    ∃ f ∈ c.fields, itemType s type = .ok f.item ∧ ∃ default, table.Fills s type default f.content := by
  rcases List.mem_append.mp member with inAttributes | inElements
  · obtain ⟨a, inside, rfl⟩ := List.mem_map.mp inAttributes
    obtain ⟨f, isField, shows⟩ := exists_of_forall₂_left h.attributes inside
    exact ⟨f, List.mem_append_left _ isField, shows.item, _, shows.content⟩
  · obtain ⟨e, inside, rfl⟩ := List.mem_map.mp inElements
    obtain ⟨f, isField, shows⟩ := exists_of_forall₂_left h.elements inside
    exact ⟨f, List.mem_append_right _ isField, shows.item, _, shows.content⟩

/-- A field of the type holds tags of the enumeration of the class. -/
def HoldsTagsOf (t : ComplexType) (className : String) : Prop := ∃ type ∈ fieldTypes t, ∃ e name,
  innermost? type = some e ∧ e.name = .text name ∧ className = Identifier.recordClass name

/-! ### What modules declare -/

/-- The class of an enumeration, with a tag for each of its texts. -/
structure EnumClass.Of (e : Enumerated) (c : EnumClass) : Prop where
  className : c.className = Identifier.recordClass e.name.shown
  tags : c.tags = Enumeration.entriesOf e.values

theorem enumClassOf_spec {e : Enumerated} {c : EnumClass} (emitted : enumClassOf e = .ok c) :
    c.Of e := by
  unfold enumClassOf at emitted
  simp only [bind_eq_ok_iff, pure, Except.pure, Except.ok.injEq, classNameOf_eq_ok_iff] at emitted
  obtain ⟨_, ⟨name, isName, rfl⟩, rfl⟩ := emitted
  exact ⟨by rw [isName, Json.shown], rfl⟩

theorem declarations_enumsModule {m : ModuleSource} (made : enumsModule s = .ok m) :
    ∃ classes, List.Forall₂ (fun e c => c.Of e) s.enumerations classes ∧
      m.declarations =
        .imports "xsd_binding.enums" ["XsdEnum"] :: classes.map Declaration.enumClass := by
  unfold enumsModule at made
  obtain ⟨classes, isClasses, made⟩ := bind_eq_ok_iff.mp made
  obtain rfl := Except.ok.inj made
  refine ⟨classes, (mapM_eq_ok_iff.mp isClasses).imp fun _ _ => enumClassOf_spec, ?_⟩
  simp only [ModuleSource.declarations, List.flatMap_cons, List.flatMap_map, ← List.map_eq_flatMap,
    List.singleton_append]

def constantsOf (table : CodecTable) : List Declaration :=
  table.definitions.map fun entry => .constant entry.1 entry.2.pieces

/-- The import of the enumerations that a records module uses, if there are any. -/
def enumImportsOf (path : String) (enums : List String) : List Declaration :=
  if enums.isEmpty then [] else [.enumImports path enums]

theorem declarations_recordsModule {package : Label} {m : ModuleSource}
    (made : recordsModule s package = .ok m) :
    ∃ name root types classes table enums, s.name = .text name ∧
      classNameOf (((s.type? s.rootType).map (·.qualifiedName)).getD .null) = .ok root ∧
      s.dependencyOrder = .ok types ∧ recordClassesOf s .empty types = .ok (classes, table) ∧ usedEnums s = .ok enums ∧
      m.declarations = standardImports.flatMap (·.declarations) ++
        (enumImportsOf (modulePath package (Identifier.module name ++ "_enums")) enums ++
          (.constant "ROOT_ELEMENT" [labelPiece s.rootElement] :: (constantsOf table ++
            (classes.map Declaration.recordClass ++
              (documentFunctions root).map Declaration.function)))) := by
  unfold recordsModule at made
  simp only [bind_eq_ok_iff, pure, Except.pure, Except.ok.injEq, Prod.exists, textOf_eq_ok_iff]
    at made
  obtain ⟨name, isName, root, isRoot, types, ordered, classes, table, isClasses, enums, isEnums, rfl⟩ :=
    made
  refine ⟨name, root, types, classes, table, enums, isName, isRoot, ordered, isClasses, isEnums, ?_⟩
  simp only [ModuleSource.declarations, List.flatMap_append, List.flatMap_map, List.flatMap_cons,
    ← List.map_eq_flatMap, List.nil_append, List.append_assoc, List.cons_append, constantsOf,
    enumImportsOf]

/-! ### Constants -/

theorem exists_defines_constantsOf_iff {name : String} :
    (∃ d ∈ constantsOf table, d.Defines name) ↔ name ∈ table.names := by
  constructor
  · rintro ⟨d, member, value, rfl⟩
    obtain ⟨entry, inside, same⟩ := List.mem_map.mp member
    obtain ⟨rfl, _⟩ := Declaration.constant.inj same
    exact List.mem_map_of_mem (f := (·.1)) inside
  · intro member
    obtain ⟨entry, inside, rfl⟩ := List.mem_map.mp member
    exact ⟨_, List.mem_map_of_mem inside, _, rfl⟩

theorem boundNames_constantsOf (table : CodecTable) :
    (constantsOf table).flatMap Declaration.boundNames = table.names := by
  rw [constantsOf, CodecTable.names, List.flatMap_map, List.map_eq_flatMap]
  rfl

/-- A constant of a table is defined at one place, after the constants that it uses. -/
theorem exists_constant (grown : table.Grown) {name : String} {term : CodecTerm}
    (member : (name, term) ∈ table.definitions) :
    ∃ before after, constantsOf table = before ++ .constant name term.pieces :: after ∧
      (∀ d ∈ before ++ after, ¬ d.Defines name) ∧
      ∀ used, Piece.codec (.constant used) ∈ term.pieces → ∃ d ∈ before, d.Defines used := by
  obtain ⟨earlier, later, split⟩ := List.append_of_mem member
  have distinct := grown.nodup_names
  rw [CodecTable.names, split, List.map_append, List.map_cons, List.nodup_append,
    List.nodup_cons] at distinct
  obtain ⟨_, ⟨notLater, _⟩, apart⟩ := distinct
  have notEarlier : name ∉ earlier.map (·.1) := fun early =>
    apart name early name List.mem_cons_self rfl
  refine ⟨constantsOf ⟨earlier⟩, constantsOf ⟨later⟩, ?_, ?_, ?_⟩
  · rw [constantsOf, split]
    simp [constantsOf]
  · intro d place defines
    rcases List.mem_append.mp place with early | late
    · exact notEarlier (exists_defines_constantsOf_iff.mp ⟨d, early, defines⟩)
    · exact notLater (exists_defines_constantsOf_iff.mp ⟨d, late, defines⟩)
  · intro used uses
    have whole : table = ⟨earlier ++ (name, term) :: later⟩ := by rw [← split]
    exact exists_defines_constantsOf_iff.mpr ((whole ▸ grown).mem_before uses)

theorem flatMap_enumImportsOf {β : Type} {take : Declaration → List β} {path : String}
    (nothing : take (.enumImports path []) = []) (enums : List String) :
    (enumImportsOf path enums).flatMap take = take (.enumImports path enums) := by
  unfold enumImportsOf
  split
  · rename_i none
    rw [List.isEmpty_iff.mp none, nothing, List.flatMap_nil]
  · rw [List.flatMap_singleton]

/-! ### Enumerations -/

theorem nodup_eraseDups (names : List String) : names.eraseDups.Nodup := by
  match names with
  | [] => simp
  | name :: names =>
    rw [List.eraseDups_cons, List.nodup_cons, List.mem_eraseDups]
    exact ⟨by simp, nodup_eraseDups _⟩
termination_by names.length
decreasing_by exact Nat.lt_succ_of_le (List.length_filter_le _ _)

/-- The enumerations used by a schema are those of the types of its fields, each once. -/
theorem mem_usedEnums {names : List String} (used : usedEnums s = .ok names) :
    names.Nodup ∧ ∀ className, className ∈ names ↔ ∃ t ∈ s.declared, ∃ type ∈ fieldTypes t, ∃ e name,
      usedEnum? type = some e ∧ e.name = .text name ∧ className = Identifier.recordClass name := by
  unfold usedEnums at used
  obtain ⟨all, isAll, used⟩ := bind_eq_ok_iff.mp used
  obtain rfl := Except.ok.inj used
  rw [mapM_eq_ok_iff] at isAll
  refine ⟨(List.mergeSort_perm _ _).nodup_iff.mpr (nodup_eraseDups all), fun className => ?_⟩
  rw [(List.mergeSort_perm _ _).mem_iff, List.mem_eraseDups]
  constructor
  · intro member
    obtain ⟨e, holder, isClass⟩ := exists_of_forall₂_left isAll.flip member
    obtain ⟨type, inside, holds⟩ := List.mem_filterMap.mp holder
    obtain ⟨t, declared, isType⟩ := List.mem_flatMap.mp inside
    obtain ⟨name, isName, rfl⟩ := classNameOf_eq_ok_iff.mp isClass
    exact ⟨t, declared, type, isType, e, name, holds, isName, rfl⟩
  · rintro ⟨t, declared, type, isType, e, name, holds, isName, rfl⟩
    have inside := List.mem_flatMap.mpr ⟨t, declared, isType⟩
    obtain ⟨className, member, isClass⟩ :=
      exists_of_forall₂_left isAll (List.mem_filterMap.mpr ⟨type, inside, holds⟩)
    rw [classNameOf_eq_ok_iff.mpr ⟨name, isName, rfl⟩] at isClass
    exact Except.ok.inj isClass ▸ member

theorem usedEnums_spec {names : List String} (regular : ∀ t ∈ s.declared, t.Regular)
    (used : usedEnums s = .ok names) :
    names.Nodup ∧ ∀ className, className ∈ names ↔ ∃ t ∈ s.declared, HoldsTagsOf t className := by
  obtain ⟨distinct, ofTypes⟩ := mem_usedEnums used
  refine ⟨distinct, fun className => (ofTypes className).trans ?_⟩
  refine exists_congr fun t => and_congr_right fun declared => ?_
  refine exists_congr fun type => and_congr_right fun inside => ?_
  rw [usedEnum?_eq (flat_of_mem_fieldTypes (regular t declared) inside)]

theorem mem_enumerations_of_innermost? {type : DeclaredType} {ids : List TypeId} {e : Enumerated}
    (among : type.Among ids s.enumerations) (holds : innermost? type = some e) :
    e ∈ s.enumerations := by
  induction type with
  | enumerated own =>
    obtain rfl := Option.some.inj holds
    exact among
  | list item ih => exact ih among holds
  | _ => cases holds

theorem mem_enumerations_of_field (closed : s.Closed) (declared : t ∈ s.declared) {type : DeclaredType}
    (member : type ∈ fieldTypes t) {e : Enumerated} (holds : innermost? type = some e) :
    e ∈ s.enumerations := by
  have within := closed.types t declared
  rcases List.mem_append.mp member with inAttributes | inElements
  · obtain ⟨a, inside, rfl⟩ := List.mem_map.mp inAttributes
    exact mem_enumerations_of_innermost? (within.attributes a inside) holds
  · obtain ⟨e, inside, rfl⟩ := List.mem_map.mp inElements
    exact mem_enumerations_of_innermost? (within.elements e inside) holds

/-! ### Records modules -/

/-- What a records module is made of: the import of the enumerations that the schema uses, and the constants of
a table and the classes of types in order, between declarations that every records module has. -/
structure Emitted (s : Schema) (m : ModuleSource) (path root : String) (used : List String)
    (table : CodecTable) (types : List ComplexType) (classes : List RecordClass) : Prop where
  order : s.dependencyOrder = .ok types
  isClasses : recordClassesOf s .empty types = .ok (classes, table)
  isUsed : usedEnums s = .ok used
  isRoot : classNameOf (((s.type? s.rootType).map (·.qualifiedName)).getD .null) = .ok root
  declarations : m.declarations = standardImports.flatMap (·.declarations) ++
    (enumImportsOf path used ++ (.constant "ROOT_ELEMENT" [labelPiece s.rootElement] ::
      (constantsOf table ++ (classes.map Declaration.recordClass ++
        (documentFunctions root).map Declaration.function))))

theorem emitted_of_recordsModule {package : Label} {m : ModuleSource} {name : String}
    (isName : s.name = .text name) (made : recordsModule s package = .ok m) :
    ∃ root used table types classes,
      Emitted s m (modulePath package (Identifier.module name ++ "_enums")) root used table types classes := by
  obtain ⟨_, root, types, classes, table, used, own, isRoot, order, isClasses, isUsed, declarations⟩ :=
    declarations_recordsModule made
  obtain rfl := Json.text.inj (isName.symm.trans own)
  exact ⟨root, used, table, types, classes, order, isClasses, isUsed, isRoot, declarations⟩

theorem mem_references_of_fieldTypes (regular : t.Regular) {id : TypeId}
    (member : .complex id ∈ fieldTypes t) : id ∈ t.references := by
  rcases List.mem_append.mp member with inAttributes | inElements
  · obtain ⟨a, inside, isComplex⟩ := List.mem_map.mp inAttributes
    rcases regular.attributes a inside with single | ⟨item, isList, _⟩
    · rw [isComplex] at single
      exact single.elim
    · rw [isComplex] at isList
      cases isList
  · obtain ⟨e, inside, isComplex⟩ := List.mem_map.mp inElements
    exact List.mem_filterMap.mpr ⟨e, inside, by rw [isComplex]⟩

namespace Emitted

variable {m : ModuleSource} {path root : String} {used : List String} {types : List ComplexType}
  {classes : List RecordClass}

theorem grown (h : Emitted s m path root used table types classes) : table.Grown :=
  (recordClassesOf_spec .empty h.isClasses).1

theorem ofTypes (h : Emitted s m path root used table types classes) :
    List.Forall₂ (fun t c => c.Of s table t) types classes := (recordClassesOf_spec .empty h.isClasses).2.1

theorem types_perm (h : Emitted s m path root used table types classes) (closed : s.Closed) :
    types.Perm s.declared := (perm_of_dependencyOrder closed h.order).1

/-- The constants are made of the enumerations whose tags the fields hold. -/
theorem converted_iff (h : Emitted s m path root used table types classes) (closed : s.Closed)
    {className : String} : (∃ constant, (constant, CodecTerm.enumeration className) ∈ table.definitions) ↔
      ∃ t ∈ s.declared, HoldsTagsOf t className := by
  have perm := h.types_perm closed
  constructor
  · rintro ⟨constant, inside⟩
    have origins := (recordClassesOf_spec .empty h.isClasses).2.2
    rcases origins.added constant className inside with none | ⟨type, among, e, text, holds⟩
    · simp [CodecTable.empty] at none
    · obtain ⟨t, isType, inCodecs⟩ := List.mem_flatMap.mp among
      exact ⟨t, perm.subset isType, type, mem_fieldTypes_of_codecTypes inCodecs, e, text, holds⟩
  · rintro ⟨t, declared, type, inside, e, name, holds, isName, rfl⟩
    obtain ⟨c, _, ofType⟩ := exists_of_forall₂_left h.ofTypes (perm.mem_iff.mpr declared)
    obtain ⟨f, _, _, default, fills⟩ := ofType.exists_field inside
    have named : ∃ codec, table.Names type codec := by
      generalize f.content = content at fills
      cases fills with
      | simple _ named => exact ⟨_, named⟩
      | record known => cases holds
    obtain ⟨codec, named⟩ := named
    exact named.exists_enumeration holds isName

/-- The class of a complex field type stands before the class with the field. -/
theorem exists_before (h : Emitted s m path root used table types classes) (closed : s.Closed)
    (regular : ∀ t ∈ s.declared, t.Regular) {before after : List RecordClass}
    (split : classes = before ++ c :: after) {f : FieldSource} (member : f ∈ c.fields) {className : String}
    (mentions : Piece.recordClass className ∈ f.item) : ∃ other ∈ before, other.className = className := by
  obtain ⟨perm, sorted⟩ := perm_of_dependencyOrder closed h.order
  have ofTypes := h.ofTypes.flip
  rw [split] at ofTypes
  obtain ⟨earlier, rest, rfl, ofEarlier, ofRest⟩ := exists_append_of_forall₂ ofTypes
  obtain ⟨t, later, ofType, _, rfl⟩ := List.forall₂_cons_left_iff.mp ofRest
  have declared : t ∈ s.declared := perm.subset (List.mem_append_right _ List.mem_cons_self)
  obtain ⟨type, isField, _, _, _, _, shows⟩ := RecordClass.Of.exists_shows ofType member
  obtain ⟨id, rfl, known⟩ :=
    recordClass_mem_itemType (flat_of_mem_fieldTypes (regular t declared) isField) shows.item mentions
  have reference := mem_references_of_fieldTypes (regular t declared) isField
  rw [List.map_append, List.map_cons] at sorted
  obtain ⟨u, inside, rfl⟩ := List.mem_map.mp (sorted.mem_before ⟨t, closed.type? declared, reference⟩)
  obtain ⟨other, isBefore, ofOther⟩ := exists_of_forall₂_left ofEarlier.flip inside
  rw [closed.type? (perm.subset (List.mem_append_left _ inside)), Option.map_some, Option.getD_some]
    at known
  obtain ⟨name, isName, rfl⟩ := classNameOf_eq_ok_iff.mp known
  refine ⟨other, isBefore, ?_⟩
  rw [ofOther.className, ComplexType.className, isName, Json.shown]

end Emitted

/-! ### Files -/

theorem generate_eq_ok_iff {package : Option String} {files : List File} :
    generate s package = .ok files ↔ checkGeneratable s = .ok () ∧ ∃ name enums records,
      s.name = .text name ∧ enumsModule s = .ok enums ∧
        recordsModule s ((package.map Json.text).getD s.package) = .ok records ∧
        files = [⟨Identifier.module name ++ "_enums.py", enums.print⟩,
          ⟨Identifier.module name ++ ".py", records.print⟩] := by
  unfold generate
  simp only [bind_eq_ok_iff, pure, Except.pure, Except.ok.injEq, textOf_eq_ok_iff]
  constructor
  · rintro ⟨_, checked, name, isName, enums, isEnums, records, isRecords, rfl⟩
    exact ⟨checked, name, enums, records, isName, isEnums, isRecords, rfl⟩
  · rintro ⟨checked, name, enums, records, isName, isEnums, isRecords, rfl⟩
    exact ⟨(), checked, name, isName, enums, isEnums, records, isRecords, rfl⟩

theorem exists_generate {package : Option String} {name : String} (checked : checkGeneratable s = .ok ())
    (isName : s.name = .text name) (enums : ∃ enums, enumsModule s = .ok enums)
    (records : ∃ records, recordsModule s ((package.map Json.text).getD s.package) = .ok records) :
    ∃ files, generate s package = .ok files := by
  obtain ⟨enums, isEnums⟩ := enums
  obtain ⟨records, isRecords⟩ := records
  exact ⟨_, generate_eq_ok_iff.mpr ⟨checked, name, enums, records, isName, isEnums, isRecords, rfl⟩⟩

theorem exists_generate_shelf : ∃ files, generate shelfSchema none = .ok files :=
  exists_generate rfl rfl ⟨_, rfl⟩ ⟨_, rfl⟩

end XmlRecords.ModuleSource
