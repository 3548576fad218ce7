import XmlRecords.Xml.Location
import XmlRecords.Xml.Node
import XmlRecords.Xml.Raw

/-!
Namespaces: start tags with their prefixes resolved. Prefixes have to be declared, and no two
attributes of a tag may have one name.
-/

set_option autoImplicit false
set_option relaxedAutoImplicit false

namespace XmlRecords.Xml

def xmlSpace : String := "http://www.w3.org/XML/1998/namespace"

def xmlnsSpace : String := "http://www.w3.org/2000/xmlns/"

/-- The namespaces of prefixes, the innermost declaration first; the empty prefix is the default. -/
abbrev Prefixes := List (String × String)

def Prefixes.initial : Prefixes := [("xml", xmlSpace)]

def spaceOf? (prefixes : Prefixes) (pre : String) : Option String :=
  (prefixes.find? (·.1 == pre)).map (·.2)

/-- A name taken apart at its colon: prefix, empty for none, and local name. -/
def splitName? (name : String) : Option (String × String) :=
  let cs := name.toList
  let pre := cs.takeWhile (· != ':')
  match cs.drop pre.length with
  | [] => if isLocalName cs then some ("", name) else none
  | _ :: rest =>
    if isLocalName pre && isLocalName rest then some (String.ofList pre, String.ofList rest)
    else none

/-- The prefix that an attribute declares, empty for the default namespace. -/
def declaredPrefix? (name : String) : Option String :=
  if name = "xmlns" then some "" else (dropText? "xmlns:" name.toList).map String.ofList

/-- Holds of the bindings of prefixes that are allowed. Namespaces have the form of references, and
only the default may be bound to nothing. -/
def isBinding (name pre space : String) : Bool :=
  if pre = "xml" then space == xmlSpace
  else if pre = "xmlns" || space == xmlSpace || space == xmlnsSpace then false
  else
    Location.isReference space && (name = "xmlns" || (isLocalName pre.toList && space != ""))

def declarePrefixes? : Prefixes → List (String × String) → Option Prefixes
  | prefixes, [] => some prefixes
  | prefixes, (name, value) :: attributes =>
    match declaredPrefix? name with
    | none => declarePrefixes? prefixes attributes
    | some pre =>
      if isBinding name pre value then declarePrefixes? ((pre, value) :: prefixes) attributes else none

/-- The namespace of a prefix; only the default namespace may be undeclared. -/
def resolvePrefix? (prefixes : Prefixes) (pre : String) : Option String :=
  match spaceOf? prefixes pre with
  | some space => some space
  | none => if pre = "" then some "" else none

/-- An attribute with its namespace; without a prefix it has none. -/
def resolveAttribute? (prefixes : Prefixes) (attr : String × String) : Option Attribute := do
  let (pre, name) ← splitName? attr.1
  if pre = "" then some ⟨"", name, attr.2⟩
  else
    let space ← resolvePrefix? prefixes pre
    some ⟨space, name, attr.2⟩

/-- Holds of attributes but those that are to identify an element by what is no name. -/
def isAcceptable (a : Attribute) : Bool :=
  !(a.space == xmlSpace && a.name == "id") ||
    isLocalName (Text.trimBoth Text.isXmlBlank a.value.toList)

def distinctAttributes : List Attribute → Bool
  | [] => true
  | a :: rest =>
    !rest.any (fun b => b.space == a.space && b.name == a.name) && distinctAttributes rest

/-- A start tag with its names resolved, and the prefixes in scope inside the element. Declarations
of prefixes are no attributes of the tag. -/
def resolveTag? (prefixes : Prefixes) (name : String) (attributes : List (String × String)) :
    Option (StartTag × Prefixes) := do
  if ¬ (attributes.map (·.1)).Nodup then none
  let inner ← declarePrefixes? prefixes attributes
  let (pre, localName) ← splitName? name
  let space ← resolvePrefix? inner pre
  let plain := attributes.filter fun a => (declaredPrefix? a.1).isNone
  let resolved ← plain.mapM (resolveAttribute? inner)
  if resolved.all isAcceptable && distinctAttributes resolved then some (⟨space, localName, resolved⟩, inner) else none

end XmlRecords.Xml
