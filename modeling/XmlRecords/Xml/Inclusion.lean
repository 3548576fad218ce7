import XmlRecords.FileStore
import XmlRecords.Xml.Document

/-!
Inclusion of documents and texts in documents. An include element stands for the document or text
that it refers to; if that is missing or malformed, for the content of its fallback. References are
taken from the place of the document they stand in.
-/

set_option autoImplicit false
set_option relaxedAutoImplicit false

namespace XmlRecords.Xml

def inclusionSpaces : List String :=
  ["http://www.w3.org/2001/XInclude", "http://www.w3.org/2003/XInclude"]

def StartTag.isInclude (tag : StartTag) : Bool :=
  inclusionSpaces.contains tag.space && tag.name == "include"

def StartTag.isFallback (tag : StartTag) : Bool :=
  inclusionSpaces.contains tag.space && tag.name == "fallback"

def StartTag.plain? (tag : StartTag) (name : String) : Option String :=
  (tag.attributes.find? fun a => a.space == "" && a.name == name).map (·.value)

def StartTag.baseInside (tag : StartTag) (base : Option String) : Option String :=
  match tag.attributes.find? fun a => a.space == xmlSpace && a.name == "base" with
  | some a => some (Location.resolve base a.value)
  | none => base

inductive Included where
  /-- Nothing may stand for it: the whole document fails. -/
  | failed
  /-- The resource is missing or malformed, and the fallback stands for it. -/
  | missing
  | nodes (nodes : List Node)

abbrev Inclusion := Option String → StartTag → Included

/-- Holds of the children an include element may have: one fallback at most, no include. -/
def mayFill (children : List Node) : Bool :=
  let tags := (Node.elementsOf children).map (·.1)
  !tags.any (·.isInclude) && (tags.filter (·.isFallback)).length ≤ 1

mutual
def includeIn? (inclusion : Inclusion) (base : Option String) : Node → Option (List Node)
  | .element tag children =>
    if tag.isInclude then
      if !mayFill children then none
      else
        match inclusion (tag.baseInside base) tag with
        | .failed => none
        | .nodes nodes => some nodes
        | .missing => fallback? inclusion (tag.baseInside base) children
    else if tag.isFallback then none
    else
      (includeInAll? inclusion (tag.baseInside base) children).map fun children =>
        [.element tag children]
  | node => some [node]

def includeInAll? (inclusion : Inclusion) (base : Option String) :
    List Node → Option (List Node)
  | [] => some []
  | node :: nodes => do
    let first ← includeIn? inclusion base node
    let rest ← includeInAll? inclusion base nodes
    some (first ++ rest)

def fallback? (inclusion : Inclusion) (base : Option String) : List Node → Option (List Node)
  | [] => none
  | node :: nodes =>
    match node with
    | .element tag children =>
      if tag.isFallback then includeInAll? inclusion (tag.baseInside base) children
      else fallback? inclusion base nodes
    | _ => fallback? inclusion base nodes
end

def Node.withBase (reference : String) : Node → Node
  | .element tag children =>
    if !reference.toList.contains '/' then .element tag children
    else
      let own := tag.attributes.find? fun a => a.space == xmlSpace && a.name == "base"
      let value := (own.map fun a => Location.resolve (some reference) a.value).getD reference
      let others := tag.attributes.filter fun a => !(a.space == xmlSpace && a.name == "base")
      .element { tag with attributes := others ++ [⟨xmlSpace, "base", value⟩] } children
  | node => node

/-- The text of a resource, in the encoding that is named or in UTF-8. -/
def includedText? (encoding : Option String) (bytes : List UInt8) : Option String := do
  let encoding ← match encoding with
    | some name => Encoding.ofName? name
    | none => some .utf8
  let cs ← encoding.decode? bytes
  if cs.all isXmlChar then some (String.ofList cs) else none

/-- The content of a file at a place, if the place names no other scheme. -/
def fetchBytes (store : FileStore) (place : String) : Except FileFault (List UInt8) :=
  if Location.hasScheme place then .error .notFound else store.read place

def fetchEntity (store : FileStore) (place : String) : Option (List Char) :=
  match fetchBytes store place with
  | .ok bytes => (decodeDocument? bytes).map (normalizeLines false)
  | .error _ => none

/-- What the options of a reader and the files around it come to for a document at a place. -/
def settingsAt (store : FileStore) (expand : Bool) (depthLimit : Option Nat)
    (base : Option String) : Settings :=
  { base, expand, fetch := fetchEntity store, depthLimit }

/-- How include elements are taken. `active` holds the places of the documents around; the fuel
bounds how deep documents may lie in one another. -/
def inclusionOf (store : FileStore) (expand : Bool) (depthLimit : Option Nat) :
    (fuel : Nat) → (active : List String) → Inclusion
  | 0, _, _, _ => .failed
  | fuel + 1, active, base, tag =>
    let reference := (tag.plain? "href").getD ""
    let place := Location.resolve base reference
    if reference.isEmpty || reference.toList.contains '#' then .failed
    else
      match (tag.plain? "parse").getD "xml", fetchBytes store place with
      | "xml", found =>
        if active.contains place then .failed
        else
          match found with
          | .error .isDirectory => .failed
          | .error _ => .missing
          | .ok bytes =>
            match (Source.bytes bytes).parse? (settingsAt store expand depthLimit (some place)) with
            | none => .missing
            | some root =>
              let inner := inclusionOf store expand depthLimit fuel (place :: active)
              match includeIn? inner (some place) root with
              | none => .failed
              | some nodes => .nodes (nodes.map (Node.withBase (Location.relative base place)))
      | "text", .error .isDirectory => .failed
      | "text", .error _ => .missing
      | "text", .ok bytes =>
        match includedText? (tag.plain? "encoding") bytes with
        | some text => .nodes [.text text]
        | none => .failed
      | _, _ => .failed

def inclusionDepth : Nat := 40

/-- The root of a document with the include elements in it replaced, none if that fails. A root that
is an include element itself is not replaced. -/
def includeInRoot? (store : FileStore) (expand : Bool) (depthLimit : Option Nat)
    (base : Option String) (root : Node) : Option Node := do
  let inclusion := inclusionOf store expand depthLimit inclusionDepth base.toList
  let nodes ← includeIn? inclusion base root
  match root, nodes with
  | .element tag children, [.element tag' children'] =>
    if tag.isInclude then some (.element tag children) else some (.element tag' children')
  | root, _ => some root

end XmlRecords.Xml
