import XmlRecords.Identifier
import XmlRecords.ModuleSource.Line

/-!
The codec constants of a generated module. A constant is defined once, when its codec is first
referred to, and after the constants that its own definition uses; a name that is taken is numbered.
-/

set_option autoImplicit false
set_option relaxedAutoImplicit false

namespace XmlRecords.ModuleSource

open Schema

inductive CodecTerm where
  | enumeration (className : String)
  | list (item : CodecName)
  deriving DecidableEq, Repr

namespace CodecTerm

def pieces : CodecTerm → List Piece
  | .enumeration className => ["values.EnumCodec(", .enumClass className, ")"]
  | .list item => ["values.ListCodec(", .codec item, ")"]

def stem : CodecName → List Char
  | .builtIn p => (builtInName p).toList.drop "values.".length
  | .constant name => Text.trimBoth (· == '_') name.toList

def wish : CodecTerm → String
  | .enumeration className =>
    String.ofList ('_' :: (Identifier.bare className).map Char.toUpper)
  | .list item => "_LIST_OF_" ++ String.ofList (stem item)

end CodecTerm

/-- The constants with their definitions, in order. -/
structure CodecTable where
  definitions : List (String × CodecTerm)
  deriving DecidableEq, Repr

namespace CodecTable

def empty : CodecTable := ⟨[]⟩

def names (table : CodecTable) : List String := table.definitions.map (·.1)

def nameOf? (table : CodecTable) (term : CodecTerm) : Option String :=
  (table.definitions.find? (·.2 == term)).map (·.1)

def numberedName (name : String) (n : Nat) : String := name ++ "_" ++ toString n

/-- A name that is not taken: the name itself, or the first one numbered from 2 on. -/
def freeName (taken : List String) (name : String) : String :=
  if taken.contains name then
    let candidates := (List.range (taken.length + 1)).map fun n => numberedName name (n + 2)
    (candidates.find? (!taken.contains ·)).getD name
  else name

def define (table : CodecTable) (term : CodecTerm) : CodecName × CodecTable :=
  match table.nameOf? term with
  | some name => (.constant name, table)
  | none =>
    let name := freeName table.names term.wish
    (.constant name, ⟨table.definitions ++ [(name, term)]⟩)

/-- The codec of a simple type, with the constants defined that it needs. -/
def refer (table : CodecTable) : DeclaredType → Except Fault (CodecName × CodecTable)
  | .primitive p => .ok (.builtIn p, table)
  | .enumerated e => do
    let name ← textOf e.name
    return table.define (.enumeration (Identifier.recordClass name))
  | .list item => do
    let (item, table) ← table.refer item
    return table.define (.list item)
  | .complex _ => .error .noSuchMember

def referAll (table : CodecTable) (types : List DeclaredType) : Except Fault CodecTable :=
  types.foldlM (fun table type => (table.refer type).map (·.2)) table

end CodecTable

end XmlRecords.ModuleSource
