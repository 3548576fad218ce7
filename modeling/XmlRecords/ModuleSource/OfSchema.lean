import XmlRecords.ModuleSource.Module
import XmlRecords.Schema.Dependency

/-!
The two modules generated for a schema: its enumerations, and its records with the functions that
take in and write whole documents.
-/

set_option autoImplicit false
set_option relaxedAutoImplicit false

namespace XmlRecords.ModuleSource

open Schema

def generatedNotice : String := "Generated by xsd-binding. Do not edit."

def enumClassOf (e : Enumerated) : Except Fault EnumClass := do
  return ⟨← classNameOf e.name, Enumeration.entriesOf e.values⟩

def enumsModule (s : Schema) : Except Fault ModuleSource := do
  let classes ← s.enumerations.mapM enumClassOf
  return {
    doc := [s!"Enumerations of the {s.name.shown} schema.", "", generatedNotice]
    groups :=
      ⟨1, [.imports "xsd_binding.enums" ["XsdEnum"]]⟩ ::
        classes.map fun c => ⟨2, [.enumClass c]⟩ }

/-- The class of the enumeration that a field holds tags of, by itself or in a list. -/
def usedEnum? : DeclaredType → Option Enumerated
  | .enumerated e => some e
  | .list (.enumerated e) => some e
  | _ => none

/-- The classes of the enumerations that the fields of a schema hold tags of, sorted. -/
def usedEnums (s : Schema) : Except Fault (List String) := do
  let types := s.declared.flatMap fun t => t.attributes.map (·.type) ++ t.elements.map (·.type)
  let names ← (types.filterMap usedEnum?).mapM fun e => classNameOf e.name
  return names.eraseDups.mergeSort

/-- The name of a module inside a package, if there is one. -/
def modulePath (package : Label) (moduleName : String) : String :=
  if package.isFalsy then moduleName else package.shown ++ "." ++ moduleName

def standardImports : List Group := [
  ⟨1, [.imports "__future__" ["annotations"]]⟩,
  ⟨1, [.imports "dataclasses" ["dataclass"], .imports "typing" ["TextIO"]]⟩,
  ⟨1, [.imports "lxml" ["etree"]]⟩,
  ⟨1, [.imports "xsd_binding" ["document", "nodes", "values", "writer"],
    .imports "xsd_binding.document" ["DriverOptions", "PathLike"],
    .imports "xsd_binding.errors" ["FieldNotPresentError"],
    .imports "xsd_binding.records" ["Record"]]⟩]

/-- A function that takes in a document of the root class, none if that fails. -/
def intakeFunction (name parameter doc source root : String) : Method where
  decorators := []
  name := name
  parameters := [parameter, ", options: DriverOptions | None = None"]
  result := [.recordClass root, " | None"]
  body := [
    ⟨0, [.doc doc]⟩,
    ⟨0, ["return document.", .name name, "(", .name source, ", ROOT_ELEMENT, ", .recordClass root,
      ", options)"]⟩]

def documentFunctions (root : String) : List Method := [
  intakeFunction "read" "path: PathLike"
    "Read a document from a file; None if it cannot be loaded or has another root." "path" root,
  intakeFunction "parse" "xml: str | bytes"
    "Read a document from text; None if it is malformed or has another root." "xml" root,
  { decorators := []
    name := "write"
    parameters := ["out: TextIO, root: ", .recordClass root]
    result := ["None"]
    body := [.plain 0 "document.write(out, root, ROOT_ELEMENT)"] },
  { decorators := []
    name := "dumps"
    parameters := ["root: ", .recordClass root]
    result := ["str"]
    body := [.plain 0 "return document.dumps(root, ROOT_ELEMENT)"] }]

def labelPiece : Label → Piece
  | .text s => .literal s
  | other => .plain other.print

/-- The module of the records of a schema, whose enumerations lie in a package. -/
def recordsModule (s : Schema) (package : Label) : Except Fault ModuleSource := do
  let moduleName := Identifier.module (← textOf s.name)
  let root ← classNameOf (((s.type? s.rootType).map (·.qualifiedName)).getD .null)
  let (classes, table) ← recordClassesOf s .empty (← s.dependencyOrder)
  let enums ← usedEnums s
  let enumGroup : List Declaration :=
    if enums.isEmpty then []
    else [.enumImports (modulePath package (moduleName ++ "_enums")) enums]
  return {
    doc := [s!"Records of the {s.name.shown} schema.", "",
      s!"Document element: <{s.rootElement.shown}>", "", generatedNotice]
    groups :=
      standardImports ++
        [⟨1, enumGroup⟩,
          ⟨1, [.constant "ROOT_ELEMENT" [labelPiece s.rootElement]]⟩,
          ⟨1, table.definitions.map fun (name, term) => .constant name term.pieces⟩] ++
        classes.map (fun c => ⟨2, [.recordClass c]⟩) ++
        (documentFunctions root).map fun m => ⟨2, [.function m]⟩ }

end XmlRecords.ModuleSource
