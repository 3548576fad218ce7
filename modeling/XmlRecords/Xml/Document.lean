import XmlRecords.Xml.Encoding
import XmlRecords.Xml.Namespace
import XmlRecords.Xml.Subset

/-!
Documents: text to trees. A document is lexed and assembled first; then entities are expanded,
defaults of attributes filled in, and names resolved.
-/

set_option autoImplicit false
set_option relaxedAutoImplicit false

namespace XmlRecords.Xml

/-- What reading a document depends on. Without expansion, references to entities in content are
dropped. A limit on depth may be set. -/
structure Settings extends Surroundings where
  depthLimit : Option Nat

/-- The attributes of a tag with their values, then the declared defaults of those not given. -/
def attributeValues? (s : Settings) (d : Declarations) (element : String)
    (given : List (String × List Piece)) : Option (List (String × String)) := do
  let values ← given.mapM fun (name, pieces) => do
    let value ← expandValue? d s.undeclared d.depth pieces
    let isText := ((d.attribute? element name).map (·.isText)).getD true
    some (name, AttributeDecl.normalize isText value)
  let defaults := d.attributes.filterMap fun a =>
    if a.element == element && !given.any (·.1 == a.name) then
      a.default.map fun value => (a.name, value)
    else none
  some (values ++ defaults)

/-- How a reference to an entity in content is expanded, given the prefixes in scope. -/
abbrev Expansion := Prefixes → String → Option (List Node)

/-- A text node of characters, last first, or none if there are no characters. -/
def textNode (run : List Char) : List Node :=
  if run.isEmpty then [] else [.text (String.ofList run.reverse)]

/-- The nodes that pieces of character data stand for; `run` holds the characters before, last
first. -/
def resolvePieces? (expand : Expansion) (prefixes : Prefixes) :
    (run : List Char) → List Piece → Option (List Node)
  | run, [] => some (textNode run)
  | run, .literal c :: pieces => resolvePieces? expand prefixes (c :: run) pieces
  | run, .character c :: pieces => resolvePieces? expand prefixes (c :: run) pieces
  | run, .entity name :: pieces => do
    let nodes ← expand prefixes name
    let rest ← resolvePieces? expand prefixes [] pieces
    some (textNode run ++ nodes ++ rest)

mutual
def resolveRaw? (s : Settings) (d : Declarations) (expand : Expansion) (prefixes : Prefixes) :
    Raw → Option (List Node)
  | .element name attributes children => do
    let values ← attributeValues? s d name attributes
    let (tag, inner) ← resolveTag? prefixes name values
    let nodes ← resolveAll? s d expand inner children
    some [.element tag nodes]
  | .characters pieces => resolvePieces? expand prefixes [] pieces
  | .cdata t => some [.text t]
  | .comment t => some [.comment t]
  | .instruction target data => some [.instruction target data]

def resolveAll? (s : Settings) (d : Declarations) (expand : Expansion) (prefixes : Prefixes) :
    List Raw → Option (List Node)
  | [] => some []
  | raw :: raws => do
    let nodes ← resolveRaw? s d expand prefixes raw
    let rest ← resolveAll? s d expand prefixes raws
    some (nodes ++ rest)
end

/-- The text of an external entity, without its declaration. -/
def entityContent? (cs : List Char) : Option (List Char) :=
  if cs.all isXmlChar then (takeDeclaration? cs).map (·.2) else none

/-- The nodes that an entity stands for in content. The fuel bounds the nesting of entities.
A resource that is missing counts as empty. -/
def expandEntity? (s : Settings) (d : Declarations) : (fuel : Nat) → Expansion
  | 0, _, _ => none
  | fuel + 1, prefixes, name =>
    let nodes? (text : List Char) : Option (List Node) :=
      (content? text).bind (resolveAll? s d (expandEntity? s d fuel) prefixes)
    match d.entity? name with
    | some (.internal text) =>
      if s.expand then nodes? text else (nodes? text).map fun _ => []
    | some (.external base reference) =>
      if s.expand then
        match s.fetch (Location.resolve base reference) with
        | some text => (entityContent? text).bind nodes?
        | none => some []
      else some []
    | some .unparsed => none
    | none =>
      match s.undeclared with
      | .refused => none
      | .dropped => some []

mutual
/-- The depth of a tree, one for an element without child elements. -/
def Node.depth : Node → Nat
  | .element _ children => Node.depthOfAll children + 1
  | _ => 0

def Node.depthOfAll : List Node → Nat
  | [] => 0
  | node :: nodes => max node.depth (Node.depthOfAll nodes)
end

mutual
def Raw.references : Raw → List Piece
  | .element _ attributes children =>
    attributes.flatMap (·.2.filter Piece.isEntity) ++ Raw.referencesOfAll children
  | .characters pieces => pieces.filter Piece.isEntity
  | _ => []

def Raw.referencesOfAll : List Raw → List Piece
  | [] => []
  | raw :: raws => raw.references ++ Raw.referencesOfAll raws
end

/-- Holds if the entities of a document do not expand beyond the allowance, or beyond five times the
length of the document. -/
def withinAllowance (d : Declarations) (length : Nat) (raw : Raw) : Bool :=
  d.entities.isEmpty ||
    let limit := max expansionAllowance (5 * length)
    let entities := d.entities.map fun (name, e) => (name, e.pieces)
    costOfPieces (entityCosts entities (limit + 1) entities.length) raw.references ≤ limit

mutual
/-- A tree up to its first reference to an undeclared entity; the flag says that there is one. A
tag with such a reference is left out. -/
def Raw.upToUndeclared (d : Declarations) : Raw → List Raw × Bool
  | .element name attributes children =>
    let isUndeclared : Piece → Bool
      | .entity name => (d.entity? name).isNone
      | _ => false
    if attributes.any fun a => a.2.any isUndeclared then ([], true)
    else
      let (children, cut) := Raw.allUpToUndeclared d children
      ([.element name attributes children], cut)
  | .characters pieces =>
    let isDeclared : Piece → Bool
      | .entity name => (d.entity? name).isSome
      | _ => true
    let kept := pieces.takeWhile isDeclared
    ([.characters kept], kept.length < pieces.length)
  | raw => ([raw], false)

def Raw.allUpToUndeclared (d : Declarations) : List Raw → List Raw × Bool
  | [] => ([], false)
  | raw :: raws =>
    let (first, cut) := raw.upToUndeclared d
    if cut then (first, true)
    else
      let (rest, cut) := Raw.allUpToUndeclared d raws
      (first ++ rest, cut)
end

def mustDeclare (d : Declarations) (declaration : Option Declaration) : Bool :=
  (declaration.bind (·.standalone)).getD false ||
    (!d.hasExternalSubset && !d.hasParameterReferences)

/-- The comments, instructions and blanks before the document type or root element. -/
def skipMisc? : (fuel : Nat) → List Char → Option (List Char)
  | 0, _ => none
  | fuel + 1, cs =>
    match skipBlanks cs with
    | '<' :: '!' :: '-' :: '-' :: rest => do
      let (_, rest) ← takeComment? rest
      skipMisc? fuel rest
    | '<' :: '?' :: rest => do
      let (_, _, rest) ← takeInstruction? rest
      skipMisc? fuel rest
    | rest => some rest

/-- The document type declaration, if there is one, and the content after it. -/
def takeProlog? (s : Surroundings) (cs : List Char) : Option (Declarations × List Char) := do
  let rest ← skipMisc? (cs.length + 1) cs
  match dropText? "<!DOCTYPE" rest with
  | some rest => takeDocumentType? s rest
  | none => some (Declarations.empty, rest)

/-- The root element of a document, none if the document is malformed. -/
def parseDocument? (s : Settings) (document : List Char) : Option Node := do
  if !document.all isXmlChar then none
  let (declaration, rest) ← takeDocumentDeclaration? (normalizeLines false document)
  let (d, rest) ← takeProlog? s.toSurroundings rest
  let raw ← Raw.root? (← content? rest)
  if !withinAllowance d document.length raw then none
  let expand := expandEntity? s d d.depth
  let whole ← resolveRaw? s d expand Prefixes.initial raw
  let nodes ←
    if s.expand || !mustDeclare d declaration then some whole
    else resolveAll? s d expand Prefixes.initial (raw.upToUndeclared d).1
  match nodes with
  | [root] =>
    match s.depthLimit with
    | some limit => if root.depth ≤ limit then some root else none
    | none => some root
  | _ => none

def dropMark : List Char → List Char
  | '\ufeff' :: cs => cs
  | cs => cs

inductive Source where
  | characters (s : String)
  | bytes (bs : List UInt8)

def Source.characters? : Source → Option (List Char)
  | .characters s => some (dropMark s.toList)
  | .bytes bs => decodeDocument? bs

/-- The root element of a document, none if the document is malformed. -/
def Source.parse? (s : Settings) (source : Source) : Option Node :=
  source.characters?.bind (parseDocument? s)

end XmlRecords.Xml
