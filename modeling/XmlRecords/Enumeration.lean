import XmlRecords.Codec.Fault
import XmlRecords.Identifier

/-!
Bound enumerations: the tag `UNKNOWN` with number -1, and a tag with the next number from 0 on for
each declared text. A text that is not declared converts to `UNKNOWN`.
-/

set_option autoImplicit false
set_option relaxedAutoImplicit false

namespace XmlRecords

/-- A bound enumeration with its tags and the texts they stand for, in declaration order. -/
structure Enumeration where
  name : String
  entries : List (String × String)
  deriving DecidableEq, Repr

structure Tag where
  name : String
  number : Int
  deriving DecidableEq, Repr

inductive EnumerationFault where
  | repeatedTag
  | reservedTag
  | unnameable
  deriving DecidableEq, Repr

namespace Enumeration

def unknown : Tag := ⟨"UNKNOWN", -1⟩

/-- Holds of the tags private to their class, which become no members: those that start with the
class name between underscores and do not end in two underscores. -/
def isPrivate (className tag : String) : Bool :=
  let start := '_' :: className.toList ++ ['_', '_']
  let cs := tag.toList
  start.isPrefixOf cs && start.length < cs.length && !List.isSuffixOf ['_', '_'] cs

def entriesOf (values : List String) : List (String × String) :=
  values.map fun value => (Identifier.tag value, value)

/-- The first fault of the tags of a class, if there is one. -/
def fault? (className : String) (tags : List String) : Option EnumerationFault :=
  let declared := "UNKNOWN" :: tags.filter (!isPrivate className ·)
  if ¬ declared.Nodup then some .repeatedTag
  else if declared.contains "mro" then some .reservedTag
  else if className.toList.contains '\x00' then some .unnameable
  else none

def ofValues (name : String) (values : List String) : Except EnumerationFault Enumeration :=
  let className := Identifier.recordClass name
  let entries := entriesOf values
  match fault? className (entries.map (·.1)) with
  | some fault => .error fault
  | none => .ok ⟨className, entries⟩

/-- The declared tags numbered from a start, private ones left out. -/
def numbered (className : String) : (start : Int) → List (String × String) → List Tag
  | _, [] => []
  | n, (tag, _) :: entries =>
    if isPrivate className tag then numbered className (n + 1) entries
    else ⟨tag, n⟩ :: numbered className (n + 1) entries

def tags (e : Enumeration) : List Tag := unknown :: numbered e.name 0 e.entries

def tagNamed? (e : Enumeration) (name : String) : Option Tag := e.tags.find? (·.name == name)

def tagNumbered? (e : Enumeration) (number : Int) : Option Tag :=
  e.tags.find? (·.number == number)

/-- Holds if a tag takes the name of a conversion, which then cannot be used. -/
def hides (e : Enumeration) (conversion : String) : Bool := e.entries.any (·.1 == conversion)

/-- The tag whose text is exactly `text`, else `UNKNOWN`. -/
def ofText (e : Enumeration) (text : String) : Except CodecFault Tag :=
  if e.hides "from_string" || e.hides "_string_table" then .error .wrongKind
  else
    match e.entries.find? fun entry => isPrivate e.name entry.1 with
    | some (tag, _) => .error (.unknownTag tag)
    | none =>
      match e.entries.find? (·.2 == text) with
      | some (tag, _) => .ok ((e.tagNamed? tag).getD unknown)
      | none => .ok unknown

/-- The text of a tag; the number stands for a tag without one. -/
def toText (e : Enumeration) (tag : Tag) : Except CodecFault String :=
  if e.hides "to_string" then .error .wrongKind
  else
    match e.entries.find? (·.1 == tag.name) with
    | some (_, text) => .ok text
    | none => .ok (toString tag.number)

end Enumeration

end XmlRecords
