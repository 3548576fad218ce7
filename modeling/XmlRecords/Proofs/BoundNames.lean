import Mathlib.Data.List.Perm.Basic
import XmlRecords.Proofs.ModuleNames
import XmlRecords.Proofs.Passing

/-!
The names that generated modules bind at the top level, and when no name is bound twice. No class may
take a name that the records module binds by itself, and in the records module of a loaded schema no
other clash is possible; but a class in the module of enumerations may take the name of the base class
that is imported there.
-/

set_option autoImplicit false
set_option relaxedAutoImplicit false

namespace XmlRecords.ModuleSource

open Schema

/-! ### Names of classes and others -/

def Declaration.boundClasses : Declaration → List String
  | .enumImports _ classNames => classNames
  | .recordClass c => [c.className]
  | .enumClass c => [c.className]
  | _ => []

/-- The names that a declaration binds to something other than a class of the schema. -/
def Declaration.ownNames : Declaration → List String
  | .imports _ names => names
  | .constant name _ => [name]
  | .function m => [m.name]
  | _ => []

def boundClasses (m : ModuleSource) : List String := m.declarations.flatMap Declaration.boundClasses

def ownNames (m : ModuleSource) : List String := m.declarations.flatMap Declaration.ownNames

theorem boundNames_perm (m : ModuleSource) : m.boundNames.Perm (m.boundClasses ++ m.ownNames) := by
  have parts : Declaration.boundNames = fun d => d.boundClasses ++ d.ownNames := by
    funext d
    cases d <;> simp [Declaration.boundNames, Declaration.boundClasses, Declaration.ownNames]
  rw [boundNames, parts]
  exact (List.flatMap_append_perm _ _ _).symm

def IsAscii (name : String) : Prop := ∀ c ∈ name.toList, c.toNat < 0x80

instance (name : String) : Decidable (IsAscii name) :=
  List.decidableBAll (fun c : Char => c.toNat < 0x80) name.toList

/-- Identifiers may be read in another form than they are written in, such as a normal form of Unicode,
but those of ASCII are read as they are. -/
def KeepsAscii (read : String → String) : Prop := ∀ name, IsAscii name → read name = name

/-- The names of a module whose own names are distinct and of ASCII are distinct, as they are read, if
and only if those of its classes are and none of them is read as one of its own names. -/
theorem nodup_map_boundNames_iff {m : ModuleSource} {read : String → String} (keeps : KeepsAscii read)
    (distinct : m.ownNames.Nodup) (ascii : ∀ name ∈ m.ownNames, IsAscii name) :
    (m.boundNames.map read).Nodup ↔
      (m.boundClasses.map read).Nodup ∧ ∀ className ∈ m.boundClasses, read className ∉ m.ownNames := by
  have own : m.ownNames.map read = m.ownNames :=
    (List.map_congr_left fun name member => keeps name (ascii name member)).trans (List.map_id' _)
  rw [(m.boundNames_perm.map read).nodup_iff, List.map_append, own, List.nodup_append',
    and_iff_right distinct]
  exact and_congr_right fun _ => List.forall_mem_map

/-! ### What the modules of a schema bind -/

variable {s : Schema}

theorem flatMap_boundClasses_map {α : Type} {declare : α → Declaration} {name : α → String}
    (binds : ∀ c, (declare c).boundClasses = [name c]) (classes : List α) :
    (classes.map declare).flatMap Declaration.boundClasses = classes.map name := by
  rw [List.flatMap_map, List.map_eq_flatMap]
  exact List.flatMap_congr fun c _ => binds c

theorem bound_enumsModule {enums : ModuleSource} (made : enumsModule s = .ok enums) :
    enums.boundClasses = s.enumerations.map Enumerated.className ∧ enums.ownNames = ["XsdEnum"] := by
  obtain ⟨classes, ofEnumerations, declared⟩ := declarations_enumsModule made
  have named : s.enumerations.map Enumerated.className = classes.map (·.className) :=
    map_eq_of_forall₂ ofEnumerations fun e c ofEnumeration => ofEnumeration.className
  constructor
  · rw [named, boundClasses, declared, List.flatMap_cons, flatMap_boundClasses_map fun _ => rfl]
    rfl
  · rw [ownNames, declared, List.flatMap_cons, List.flatMap_map]
    simp [Declaration.ownNames]

def functionNames : List String := ["read", "parse", "write", "dumps"]

section Declarations

variable {path root : String} {value : List Piece} {used : List String} {table : CodecTable}
  {classes : List RecordClass}

theorem flatMap_boundClasses_records :
    (standardImports.flatMap (·.declarations) ++ (enumImportsOf path used ++
      (.constant "ROOT_ELEMENT" value :: (constantsOf table ++ (classes.map Declaration.recordClass ++
        (documentFunctions root).map Declaration.function))))).flatMap Declaration.boundClasses =
      used ++ classes.map (·.className) := by
  have standard : (standardImports.flatMap (·.declarations)).flatMap
      Declaration.boundClasses = [] := rfl
  have imports : (enumImportsOf path used).flatMap Declaration.boundClasses = used :=
    flatMap_enumImportsOf rfl used
  have rootElement : (Declaration.constant "ROOT_ELEMENT" value).boundClasses = [] := rfl
  have constants : (constantsOf table).flatMap Declaration.boundClasses = [] :=
    List.flatMap_eq_nil_iff.mpr (List.forall_mem_map.mpr fun _ _ => rfl)
  have functions : ((documentFunctions root).map Declaration.function).flatMap
      Declaration.boundClasses = [] := rfl
  simp only [List.flatMap_append, List.flatMap_cons, standard, imports, rootElement, constants,
    functions, List.nil_append, List.append_nil]
  rw [flatMap_boundClasses_map fun _ => rfl]

/-- Besides classes a records module binds constants, the names that no class may take, and functions. -/
theorem flatMap_ownNames_records :
    ((standardImports.flatMap (·.declarations) ++ (enumImportsOf path used ++
      (.constant "ROOT_ELEMENT" value :: (constantsOf table ++ (classes.map Declaration.recordClass ++
        (documentFunctions root).map Declaration.function))))).flatMap Declaration.ownNames).Perm
      (table.names ++ (reservedClassNames ++ functionNames)) := by
  have standard : ((standardImports.flatMap (·.declarations)).flatMap Declaration.ownNames ++
      ["ROOT_ELEMENT"]).Perm reservedClassNames := by
    decide
  have imports : (enumImportsOf path used).flatMap Declaration.ownNames = [] :=
    flatMap_enumImportsOf rfl used
  have constants : (constantsOf table).flatMap Declaration.ownNames = table.names := by
    rw [constantsOf, CodecTable.names, List.flatMap_map, List.map_eq_flatMap]
    rfl
  have ofClasses : (classes.map Declaration.recordClass).flatMap Declaration.ownNames = [] :=
    List.flatMap_eq_nil_iff.mpr (List.forall_mem_map.mpr fun _ _ => rfl)
  have functions : ((documentFunctions root).map Declaration.function).flatMap
      Declaration.ownNames = functionNames := rfl
  simp only [List.flatMap_append, List.flatMap_cons, imports, constants, ofClasses, functions,
    List.nil_append]
  have moved := (standard.append_right _).trans
    (List.perm_append_comm_assoc reservedClassNames table.names functionNames)
  rwa [List.append_assoc] at moved

end Declarations

theorem bound_recordsModule {package : Label} {records : ModuleSource}
    (made : recordsModule s package = .ok records) :
    ∃ used types, ∃ table : CodecTable,
      usedEnums s = .ok used ∧ s.dependencyOrder = .ok types ∧ table.Grown ∧
      records.boundClasses = used ++ types.map ComplexType.className ∧
      records.ownNames.Perm (table.names ++ (reservedClassNames ++ functionNames)) := by
  obtain ⟨name, root, types, classes, table, used, _, _, ordered, isClasses, isUsed, declared⟩ :=
    declarations_recordsModule made
  obtain ⟨grown, ofTypes, _⟩ := recordClassesOf_spec .empty isClasses
  have named : types.map ComplexType.className = classes.map (·.className) :=
    map_eq_of_forall₂ ofTypes fun t c ofType => ofType.className
  refine ⟨used, types, table, isUsed, ordered, grown, ?_, ?_⟩
  · rw [boundClasses, declared, flatMap_boundClasses_records, named]
  · rw [ownNames, declared]
    exact flatMap_ownNames_records

/-! ### Own names -/

theorem head?_fixed : ∀ name ∈ reservedClassNames ++ functionNames, name.toList.head? ≠ some '_' := by
  decide

theorem nodup_own {table : CodecTable} (grown : table.Grown) :
    (table.names ++ (reservedClassNames ++ functionNames)).Nodup := by
  refine List.nodup_append.mpr ⟨grown.nodup_names, by decide, ?_⟩
  rintro name constant _ fixed rfl
  exact head?_fixed name fixed (grown.private_names name constant).start

theorem isAscii_own {table : CodecTable} (grown : table.Grown) :
    ∀ name ∈ table.names ++ (reservedClassNames ++ functionNames), IsAscii name := by
  rw [List.forall_mem_append]
  refine ⟨fun name constant c member => ?_, by decide⟩
  exact Identifier.toNat_lt_of_isWordChar ((grown.private_names name constant).word c member)

theorem head_recordClass {name : String} {d : Char}
    (first : (Identifier.recordClass name).toList.head? = some d) : d ≠ '_' ∧ d.isLower = false := by
  rw [Identifier.head?_recordClass] at first
  obtain ⟨c, found, form⟩ := Option.bind_eq_some_iff.mp first
  refine ⟨?_, Text.isLower_head_capital form⟩
  rintro rfl
  rcases Text.head_capital_cases form with ⟨rfl, _⟩ | beyond
  · have solid := List.find?_some found
    simp [Identifier.isClassDivider] at solid
  · revert beyond
    decide

/-- A class name, as it is written, is one of the own names of a records module only if it is one that no
class may take. -/
theorem recordClass_mem_own_iff {table : CodecTable} (grown : table.Grown) (name : String) :
    Identifier.recordClass name ∈ table.names ++ (reservedClassNames ++ functionNames) ↔
      Identifier.recordClass name ∈ reservedClassNames := by
  have functions : ∀ function ∈ functionNames,
      ∃ d, function.toList.head? = some d ∧ d.isLower = true := by
    simp [functionNames]
  constructor
  · intro member
    rcases List.mem_append.mp member with constant | fixed
    · exact absurd rfl (head_recordClass (grown.private_names _ constant).start).1
    · rcases List.mem_append.mp fixed with reserved | function
      · exact reserved
      · obtain ⟨d, first, lower⟩ := functions _ function
        rw [(head_recordClass first).2] at lower
        cases lower
  · exact fun reserved => List.mem_append_right _ (List.mem_append_left _ reserved)

/-! ### Checked schemas -/

theorem free_of_checkClassName {label : Label} (checked : checkClassName s label = .ok ()) :
    Identifier.recordClass label.shown ∉ reservedClassNames := by
  obtain ⟨className, isClass, guarded⟩ := bind_eq_ok_iff.mp checked
  obtain ⟨name, rfl, rfl⟩ := classNameOf_eq_ok_iff.mp isClass
  split at guarded
  · cases guarded
  · rename_i free
    simpa [Json.shown] using free

/-- A schema that modules are generated for is valid, and none of its classes has a name that no class
may take. -/
theorem free_of_checkGeneratable (checked : checkGeneratable s = .ok ()) :
    s.validate = .ok () ∧ ∀ className ∈ s.enumerations.map Enumerated.className ++
      s.declared.map ComplexType.className, className ∉ reservedClassNames := by
  obtain ⟨_, valid, each⟩ := bind_eq_ok_iff.mp checked
  have free := fun label member => free_of_checkClassName (forM_eq_ok_iff.mp each label member)
  refine ⟨valid, ?_⟩
  rw [List.forall_mem_append, List.forall_mem_map, List.forall_mem_map] at free ⊢
  exact free

/-! ### Distinct names -/

/-- The names that a module of enumerations binds are distinct, as they are written, unless one of its
classes takes the name of the base class. -/
theorem nodup_enumsModule_iff {enums : ModuleSource} (valid : s.validate = .ok ())
    (made : enumsModule s = .ok enums) :
    enums.boundNames.Nodup ↔ "XsdEnum" ∉ s.enumerations.map Enumerated.className := by
  obtain ⟨isClasses, isOwn⟩ := bound_enumsModule made
  rw [enums.boundNames_perm.nodup_iff, isClasses, isOwn, List.nodup_append',
    List.disjoint_singleton, and_iff_right (checked_of_validate valid).enumerationClasses]
  exact and_iff_right (List.nodup_singleton _)

/-- The names that a records module binds are distinct, as they are written, if and only if its classes
have names of their own and imported enumerations do, none of which is taken. -/
theorem nodup_recordsModule_iff {package : Label} {records : ModuleSource} {used : List String}
    {types : List ComplexType} (made : recordsModule s package = .ok records)
    (isUsed : usedEnums s = .ok used) (ordered : s.dependencyOrder = .ok types) :
    records.boundNames.Nodup ↔ (types.map ComplexType.className).Nodup ∧
      (∀ t ∈ types, t.className ∉ used) ∧
      ∀ className ∈ used ++ types.map ComplexType.className, className ∉ reservedClassNames := by
  obtain ⟨_, _, table, isUsed', ordered', grown, isClasses, isOwn⟩ := bound_recordsModule made
  obtain rfl := Except.ok.inj (isUsed.symm.trans isUsed')
  obtain rfl := Except.ok.inj (ordered.symm.trans ordered')
  obtain ⟨distinct, ofTypes⟩ := mem_usedEnums isUsed
  have own : (∀ className ∈ used ++ types.map ComplexType.className,
      className ∉ table.names ++ (reservedClassNames ++ functionNames)) ↔
      ∀ className ∈ used ++ types.map ComplexType.className, className ∉ reservedClassNames := by
    refine forall₂_congr fun className member => not_congr ?_
    rcases List.mem_append.mp member with isEnum | isType
    · obtain ⟨_, _, _, _, _, name, _, _, rfl⟩ := (ofTypes className).mp isEnum
      exact recordClass_mem_own_iff grown name
    · obtain ⟨t, _, rfl⟩ := List.mem_map.mp isType
      exact recordClass_mem_own_iff grown _
  have apart : List.Disjoint used (types.map ComplexType.className) ↔
      ∀ t ∈ types, t.className ∉ used := by
    rw [List.disjoint_comm]
    exact List.forall_mem_map
  rw [(records.boundNames_perm.trans (isOwn.append_left _)).nodup_iff, isClasses, List.nodup_append',
    and_iff_right (nodup_own grown), List.nodup_append', and_iff_right distinct, apart, and_assoc,
    ← own]
  exact Iff.rfl

/-- In the records module of a loaded schema the names of classes are distinct and free. -/
theorem nodup_of_load {package : Label} {records : ModuleSource} {definition : Json} {source : Label}
    (loaded : load definition source = .ok s) (checked : checkGeneratable s = .ok ())
    (made : recordsModule s package = .ok records) : records.boundNames.Nodup := by
  obtain ⟨used, types, _, isUsed, ordered, _⟩ := bound_recordsModule made
  obtain ⟨valid, free⟩ := free_of_checkGeneratable checked
  obtain ⟨_, regular⟩ := regular_of_load loaded
  have closed := closed_of_load loaded
  obtain ⟨perm, _⟩ := BoundSchema.perm_of_dependencyOrder closed ordered
  rw [List.forall_mem_append] at free
  have known : ∀ className ∈ used, className ∈ s.enumerations.map Enumerated.className := by
    intro className member
    obtain ⟨t, declared, type, inside, e, name, holds, isName, rfl⟩ :=
      ((usedEnums_spec regular isUsed).2 className).mp member
    refine List.mem_map.mpr ⟨e, mem_enumerations_of_field closed declared inside holds, ?_⟩
    rw [Enumerated.className, isName, Json.shown]
  refine (nodup_recordsModule_iff made isUsed ordered).mpr ⟨?_, ?_, ?_⟩
  · exact (perm.map _).nodup_iff.mpr (checked_of_validate valid).typeClasses
  · exact fun t member inUsed => apart_of_validate valid t (perm.subset member) (known _ inUsed)
  · refine List.forall_mem_append.mpr ⟨fun className member => free.1 _ (known _ member), ?_⟩
    exact fun className member => free.2 _ ((perm.map _).subset member)

/-- The names that the modules of a schema bind are distinct as they are read if and only if those of
the classes are and none is read as another name of the module. As they are written, they are distinct in
the module of enumerations unless a class is called like the base class, and in the records module unless
the schema uses enumerations or types that it does not declare, so always if it was loaded. -/
theorem nodup_boundNames_iff {package : Option String} {files : List File}
    (generated : generate s package = .ok files) :
    ∃ (name : String) (enums records : ModuleSource) (used : List String) (types : List ComplexType),
      s.name = .text name ∧
      files = [⟨Identifier.module name ++ "_enums.py", enums.print⟩,
        ⟨Identifier.module name ++ ".py", records.print⟩] ∧
      enumsModule s = .ok enums ∧
      recordsModule s ((package.map Json.text).getD s.package) = .ok records ∧
      usedEnums s = .ok used ∧ s.dependencyOrder = .ok types ∧
      (∀ m ∈ [enums, records], ∀ read, KeepsAscii read → ((m.boundNames.map read).Nodup ↔
        (m.boundClasses.map read).Nodup ∧
          ∀ className ∈ m.boundClasses, read className ∉ m.ownNames)) ∧
      (enums.boundNames.Nodup ↔ "XsdEnum" ∉ s.enumerations.map Enumerated.className) ∧
      (records.boundNames.Nodup ↔ (types.map ComplexType.className).Nodup ∧
        (∀ t ∈ types, t.className ∉ used) ∧
        ∀ className ∈ used ++ types.map ComplexType.className, className ∉ reservedClassNames) ∧
      ∀ definition source, load definition source = .ok s → records.boundNames.Nodup := by
  obtain ⟨checked, name, enums, records, isName, isEnums, isRecords, isFiles⟩ :=
    generate_eq_ok_iff.mp generated
  obtain ⟨valid, _⟩ := free_of_checkGeneratable checked
  obtain ⟨used, types, table, isUsed, ordered, grown, _, isOwn⟩ := bound_recordsModule isRecords
  refine ⟨name, enums, records, used, types, isName, isFiles, isEnums, isRecords, isUsed, ordered, ?_,
    nodup_enumsModule_iff valid isEnums, nodup_recordsModule_iff isRecords isUsed ordered,
    fun definition source loaded => nodup_of_load loaded checked isRecords⟩
  rw [List.forall_mem_cons, List.forall_mem_singleton]
  refine ⟨fun read keeps => ?_, fun read keeps => ?_⟩
  · have isBase := (bound_enumsModule isEnums).2
    apply nodup_map_boundNames_iff keeps
    · rw [isBase]
      exact List.nodup_singleton _
    · rw [isBase]
      decide
  · apply nodup_map_boundNames_iff keeps (isOwn.nodup_iff.mpr (nodup_own grown))
    exact fun name member => isAscii_own grown name (isOwn.subset member)

theorem nodup_boundNames_shelf : ∃ files, generate shelfSchema none = .ok files ∧
    ∃ enums records : ModuleSource,
      files = [⟨"shelf_enums.py", enums.print⟩, ⟨"shelf.py", records.print⟩] ∧
      enums.boundNames.Nodup ∧ records.boundNames.Nodup := by
  obtain ⟨files, generated⟩ := exists_generate_shelf
  obtain ⟨name, enums, records, _, _, isName, isFiles, _, _, _, _, _, ofEnums, _, ofLoaded⟩ :=
    nodup_boundNames_iff generated
  obtain rfl := Json.text.inj isName
  have noBase : "XsdEnum" ∉ shelfSchema.enumerations.map Enumerated.className := by
    decide +kernel
  exact ⟨files, generated, enums, records, isFiles, ofEnums.mpr noBase,
    ofLoaded _ _ load_shelfDefinition⟩

/-- The definition of a schema with one type, which has no fields, and one enumeration, called like the
base class of enumerations. -/
def baseDefinition : Json :=
  .object [
    ("name", .text "sole"),
    ("enums", .array [.object [("name", .text "XsdEnum"), ("values", .array [.text "a"])]]),
    ("types", .array [.object [("name", .text "Sole")]]),
    ("root", .object [("element", .text "sole"), ("type", .text "Sole")])]

def baseSchema : Schema := {
  emptySchema "sole" "Sole" with enumerations := [⟨.text "XsdEnum", ["a"]⟩] }

/-- The module of enumerations of a loaded schema that binds a name twice: it imports the base class of
enumerations and declares a class of that name. -/
theorem not_nodup_boundNames_base : load baseDefinition (.text "sole") = .ok baseSchema ∧
    ∃ enums records : ModuleSource, generate baseSchema none =
        .ok [⟨"sole_enums.py", enums.print⟩, ⟨"sole.py", records.print⟩] ∧
      enums.boundNames = ["XsdEnum", "XsdEnum"] ∧ ¬ enums.boundNames.Nodup := by
  obtain ⟨enums, isEnums⟩ : ∃ enums, enumsModule baseSchema = .ok enums := ⟨_, rfl⟩
  obtain ⟨records, isRecords⟩ : ∃ records, recordsModule baseSchema .null = .ok records := ⟨_, rfl⟩
  have twice : enums.boundNames = ["XsdEnum", "XsdEnum"] := by
    obtain rfl := Except.ok.inj (isEnums.symm.trans rfl)
    rfl
  refine ⟨rfl, enums, records, ?_, twice, ?_⟩
  · exact generate_eq_ok_iff.mpr ⟨rfl, "sole", enums, records, rfl, isEnums, isRecords, rfl⟩
  · rw [twice]
    decide

end XmlRecords.ModuleSource
