import XmlRecords.Json.Reader
import XmlRecords.Schema.Bundled
import XmlRecords.Xml.LineEnd

/-!
Schemas by name. A catalog is indexed once, at its first use, by the names of the schema files that
are then in its directory. A schema is read when it is first asked for and kept from then on; one
that cannot be read is not kept.
-/

set_option autoImplicit false
set_option relaxedAutoImplicit false

namespace XmlRecords

namespace Schema

/-- The schema that the content of a file at a path defines. As in reading JSON, an interpreter's limit to
its recursion is left out. -/
def ofBytes (path : String) (bytes : List UInt8) : Except Fault Schema :=
  match String.fromUTF8? ⟨bytes.toArray⟩ with
  | none => .error .badEncoding
  | some text =>
    let text := String.ofList (Xml.normalizeLines false text.toList)
    match Json.read text with
    | .ok definition => load definition (.text path)
    | .error stop =>
      match stop.refusal with
      | .integerTooLong _ => .error .unsuitable
      | _ => .error (.located (.badDefinition (stop.message text)) (.text path))

def loadFile (store : FileStore) (path : String) : Except Fault Schema :=
  let path := plainPath path
  match store.read path with
  | .ok bytes => ofBytes path bytes
  | .error fault => .error (.located (.unreadable (fault.message path)) (.text path))

def loadBundled (name : String) : Except Fault Schema :=
  match bundledDefinition? name with
  | some definition => load definition (.text name)
  | none => .error (.noSuchSchema name)

/-- The schema that is bundled under a name, else that of the file at this path. -/
def resolve (store : FileStore) (reference : String) : Except Fault Schema :=
  if (bundledDefinition? reference).isSome then loadBundled reference
  else loadFile store reference

end Schema

inductive CatalogSource where
  | bundled
  | directory (path : String)
  deriving DecidableEq, Repr

/-- The index gives each name the path of its file; there is none before the first use. -/
structure Catalog where
  source : CatalogSource
  index : Option (List (String × String))
  kept : List (String × Schema)

namespace Catalog

def new (source : CatalogSource) : Catalog := ⟨source, none, []⟩

/-- The name of the schema in a file, if its name is that of a schema file. -/
def schemaName? (fileName : String) : Option String :=
  if fileName.endsWith ".json" then
    if fileName.length = ".json".length then some fileName
    else some (fileName.dropEnd ".json".length).toString
  else none

/-- The files with the names of schema files, under the names of the schemas. -/
def namedFiles (fileNames : List String) : List (String × String) :=
  fileNames.filterMap fun fileName => (schemaName? fileName).map (·, fileName)

def lastOfEach : List (String × String) → List (String × String)
  | [] => []
  | entry :: entries =>
    if entries.any (·.1 == entry.1) then lastOfEach entries else entry :: lastOfEach entries

/-- What lies right in a directory under the name of a schema file, ordered by the names of the schemas.
Of two files for one name the later one counts. -/
def filesIn (store : FileStore) (directory : String) : List (String × String) :=
  match store.locate (plainPath directory) with
  | .error _ => []
  | .ok place =>
    let fileNames := (store.namesIn place).mergeSort fun a b => a ≤ b
    (lastOfEach (namedFiles fileNames)).mergeSort fun a b => a.1 ≤ b.1

def indexOf (store : FileStore) (directory : String) : List (String × String) :=
  (filesIn store directory).map fun (name, fileName) => (name, joinPath directory fileName)

/-- The index that a catalog has, or gets from the files that are there now. -/
def currentIndex (c : Catalog) (store : FileStore) : List (String × String) :=
  match c.index, c.source with
  | some index, _ => index
  | none, .bundled => Schema.bundled.map fun (name, _) => (name, name)
  | none, .directory path => indexOf store path

def indexed (c : Catalog) (store : FileStore) : Catalog :=
  { c with index := some (c.currentIndex store) }

def names (c : Catalog) (store : FileStore) : List String := (c.currentIndex store).map (·.1)

def contains (c : Catalog) (store : FileStore) (name : String) : Bool :=
  (c.names store).contains name

def kept? (c : Catalog) (name : String) : Option Schema :=
  (c.kept.find? (·.1 == name)).map (·.2)

def load (c : Catalog) (store : FileStore) (path : String) : Except Fault Schema :=
  match c.source with
  | .bundled => Schema.loadBundled path
  | .directory _ => Schema.loadFile store path

/-- The schema of a name, and the catalog that keeps it. -/
def get (c : Catalog) (store : FileStore) (name : String) : Except Fault Schema × Catalog :=
  let c := c.indexed store
  match c.kept? name with
  | some schema => (.ok schema, c)
  | none =>
    match (c.currentIndex store).find? (·.1 == name) with
    | none => (.error (.noSuchSchema name), c)
    | some (_, path) =>
      match c.load store path with
      | .error fault => (.error fault, c)
      | .ok schema => (.ok schema, { c with kept := (name, schema) :: c.kept })

end Catalog

end XmlRecords
