import XmlRecords.ModuleSource.OfSchema
import XmlRecords.Notice
import XmlRecords.Schema.Validity

/-!
Generating the modules of a schema and writing them to files. No class may take a name that the
records module binds itself.
-/

set_option autoImplicit false
set_option relaxedAutoImplicit false

namespace XmlRecords.ModuleSource

open Schema

def reservedClassNames : List String := [
  "ROOT_ELEMENT", "TextIO", "DriverOptions", "PathLike", "FieldNotPresentError", "Record",
  "annotations", "dataclass", "etree", "document", "nodes", "values", "writer"]

def checkClassName (s : Schema) (name : Label) : Except Fault Unit := do
  let className ← classNameOf name
  if reservedClassNames.contains className then
    throw (.located (.reservedClass className) s.name)

def checkGeneratable (s : Schema) : Except Fault Unit := do
  s.validate
  (s.enumerations.map (·.name) ++ s.declared.map (·.qualifiedName)).forM (checkClassName s)

structure File where
  name : String
  text : String
  deriving DecidableEq, Repr

/-- The files of the modules of a schema, in the package given or else in the schema's own. -/
def generate (s : Schema) (package : Option String) : Except Fault (List File) := do
  checkGeneratable s
  let package := (package.map Json.text).getD s.package
  let moduleName := Identifier.module (← textOf s.name)
  let enums ← enumsModule s
  let records ← recordsModule s package
  return [⟨moduleName ++ "_enums.py", enums.print⟩, ⟨moduleName ++ ".py", records.print⟩]

/-- What writing modules came to: the files afterwards, the notices, and the paths written or what
went wrong. -/
structure Written where
  store : FileStore
  notices : List Notice
  paths : Except Fault (List String)

def writeFiles (directory : String) : FileStore → List File → FileStore × Except Fault (List String)
  | store, [] => (store, .ok [])
  | store, file :: files =>
    let path := joinPath directory file.name
    match store.write path file.text.toUTF8.toList with
    | .error fault => (store, .error (.file fault))
    | .ok store =>
      let (store, paths) := writeFiles directory store files
      (store, paths.map (path :: ·))

/-- Writes the modules of a schema into a directory, which is made if it is missing. -/
def write (s : Schema) (store : FileStore) (directory : String) (package : Option String) :
    Written :=
  match store.makeDirectory directory with
  | .error fault => ⟨store, [], .error (.file fault)⟩
  | .ok store =>
    match generate s package with
    | .error fault => ⟨store, [], .error fault⟩
    | .ok files =>
      let generated := Notice.generated s.name.shown (files.map (·.name))
      match writeFiles directory store files with
      | (store, .error fault) => ⟨store, [generated], .error fault⟩
      | (store, .ok paths) =>
        ⟨store, [generated, .wrote paths.length (plainPath directory)], .ok paths⟩

end XmlRecords.ModuleSource
