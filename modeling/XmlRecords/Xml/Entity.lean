import XmlRecords.Xml.LineEnd
import XmlRecords.Xml.Location
import XmlRecords.Xml.Token

/-!
Entities and attribute declarations of a document, and the expansion of entities in attribute
values. An entity that refers to itself is never fully expanded, so its expansion fails.
-/

set_option autoImplicit false
set_option relaxedAutoImplicit false

namespace XmlRecords.Xml

/-- What an entity stands for: a text, a resource with a place it is relative to, or no text. -/
inductive Entity where
  | internal (text : List Char)
  | external (base : Option String) (reference : String)
  | unparsed
  deriving DecidableEq, Repr

/-- An attribute declared for the elements of a name. -/
structure AttributeDecl where
  element : String
  name : String
  isText : Bool
  default : Option String
  deriving DecidableEq, Repr

/-- What a document type declares. The first declaration of a name counts. -/
structure Declarations where
  entities : List (String × Entity)
  parameters : List (String × Entity)
  attributes : List AttributeDecl
  hasExternalSubset : Bool
  hasParameterReferences : Bool
  deriving DecidableEq, Repr

namespace Declarations

def empty : Declarations := ⟨[], [], [], false, false⟩

def entity? (d : Declarations) (name : String) : Option Entity :=
  (d.entities.find? (·.1 == name)).map (·.2)

def parameter? (d : Declarations) (name : String) : Option Entity :=
  (d.parameters.find? (·.1 == name)).map (·.2)

def attribute? (d : Declarations) (element name : String) : Option AttributeDecl :=
  d.attributes.find? fun a => a.element == element && a.name == name

def addEntity (d : Declarations) (isParameter : Bool) (name : String) (e : Entity) : Declarations :=
  if isParameter then { d with parameters := d.parameters ++ [(name, e)] }
  else { d with entities := d.entities ++ [(name, e)] }

def addAttribute (d : Declarations) (a : AttributeDecl) : Declarations :=
  if (d.attribute? a.element a.name).isSome then d
  else { d with attributes := d.attributes ++ [a] }

def depth (d : Declarations) : Nat := d.entities.length + 1

end Declarations

/-- How references without a declaration are taken. -/
inductive Undeclared where
  | refused
  | dropped
  deriving DecidableEq, Repr

def spaceForBlank (c : Char) : Char := if Text.isXmlBlank c then ' ' else c

/-- The text of an attribute value. The fuel bounds the nesting of entities. -/
def expandValue? (d : Declarations) (undeclared : Undeclared) :
    (fuel : Nat) → List Piece → Option (List Char)
  | 0, pieces =>
    pieces.mapM fun
      | .literal c => some (spaceForBlank c)
      | .character c => some c
      | .entity _ => none
  | fuel + 1, pieces =>
    (pieces.mapM fun piece : Piece =>
      match piece with
      | .literal c => some [spaceForBlank c]
      | .character c => some [c]
      | .entity name =>
        match d.entity? name with
        | some (.internal text) =>
          if text.contains '<' then none
          else (pieces? none text).bind (expandValue? d undeclared fuel)
        | some _ => none
        | none =>
          match undeclared with
          | .refused => none
          | .dropped => some []).map List.flatten

def collapseSpaces (cs : List Char) : List Char :=
  [' '].intercalate ((cs.splitOnP (· == ' ')).filter (!·.isEmpty))

/-- The value of an attribute of a declared type; only text keeps its spaces. -/
def AttributeDecl.normalize (isText : Bool) (value : List Char) : String :=
  String.ofList (if isText then value else collapseSpaces value)

/-! The cost of expansion is bounded, so that small entities cannot make a huge document. -/

def expansionAllowance : Nat := 1000000

def referenceCost : Nat := 20

def costOfPieces (costs : List (String × Nat)) (pieces : List Piece) : Nat :=
  let cost : Piece → Nat
    | .entity name => referenceCost + ((costs.find? (·.1 == name)).map (·.2)).getD 0
    | _ => 1
  pieces.foldl (fun total piece => total + cost piece) 0

/-- The pieces of an entity's text, as far as they can be told apart. -/
def Entity.pieces : Entity → List Piece
  | .internal text => (pieces? none text).getD (text.map .literal)
  | _ => []

/-- The costs of entities after so many rounds, each no more than `limit`. -/
def entityCosts (entities : List (String × List Piece)) (limit : Nat) :
    (rounds : Nat) → List (String × Nat)
  | 0 => entities.map fun (name, _) => (name, 0)
  | rounds + 1 =>
    let costs := entityCosts entities limit rounds
    entities.map fun (name, pieces) => (name, min limit (costOfPieces costs pieces))

end XmlRecords.Xml
