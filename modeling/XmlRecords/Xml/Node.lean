import XmlRecords.Fault
import XmlRecords.Xml.Char

/-!
Document trees with names resolved to namespaces. Elements and attributes are looked up by local
name: an attribute without a namespace comes before those with one.
-/

set_option autoImplicit false
set_option relaxedAutoImplicit false

namespace XmlRecords.Xml

/-- An attribute; `space` is its namespace, empty for none. -/
structure Attribute where
  space : String
  name : String
  value : String
  deriving DecidableEq, Inhabited, Repr

/-- The start tag of an element: namespace, local name and attributes in document order. -/
structure StartTag where
  space : String
  name : String
  attributes : List Attribute
  deriving DecidableEq, Inhabited, Repr

inductive Node where
  | element (tag : StartTag) (children : List Node)
  | text (s : String)
  | comment (s : String)
  | instruction (target data : String)
  deriving Inhabited, Repr

namespace Node

def elementsOf : List Node → List (StartTag × List Node)
  | [] => []
  | .element tag children :: nodes => (tag, children) :: elementsOf nodes
  | _ :: nodes => elementsOf nodes

/-- The text among nodes, that inside elements left out. -/
def directText : List Node → String
  | [] => ""
  | .text s :: nodes => s ++ directText nodes
  | _ :: nodes => directText nodes

end Node

/-- The namespace and local name that a looked-up name asks for: `\x7bspace\x7dlocal` names a
namespace, any other name asks for none. Names no attribute can have are refused. -/
def attributeQuery (name : String) : Except Fault (String × String) :=
  if !name.toList.all isXmlChar then .error .unsuitable
  else
    match name.toList with
    | [] => .error .unsuitable
    | '\x7b' :: rest =>
      let space := rest.takeWhile (· != '\x7d')
      match rest.drop space.length with
      | [] => .error .unsuitable
      | [_] => .error .unsuitable
      | _ :: name => .ok (String.ofList space, String.ofList name)
    | cs => .ok ("", String.ofList cs)

/-- The value of an attribute by local name, empty if there is none. -/
def attributeValue (attributes : List Attribute) (name : String) : Except Fault String := do
  let (space, localName) ← attributeQuery name
  match attributes.find? fun a => a.space == space && a.name == localName with
  | some a => return a.value
  | none =>
    match attributes.find? fun a => a.space != "" && a.name == name with
    | some a => return a.value
    | none => return ""

end XmlRecords.Xml
