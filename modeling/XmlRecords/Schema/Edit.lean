import XmlRecords.Schema.Basic

/-!
Changes to a schema after it was read. They are not checked here: a changed schema is checked before
it is bound.
-/

set_option autoImplicit false
set_option relaxedAutoImplicit false

namespace XmlRecords.Schema

/-- Holds if a type is nested in another at any depth. The fuel bounds the nesting. -/
def isWithin (s : Schema) (outer : TypeId) : (fuel : Nat) → ComplexType → Bool
  | 0, _ => false
  | fuel + 1, t =>
    match t.parent with
    | none => false
    | some parent => parent == outer || ((s.type? parent).map (s.isWithin outer fuel)).getD false

def depthBound (s : Schema) : Nat := s.declared.length + s.undeclared.length + 1

/-- Takes the top-level types of a name out of the declared ones, with all that is nested in them.
They may still be referred to. -/
def dropType (s : Schema) (name : Label) : Schema :=
  let dropped := s.topLevel.filter (·.name.same name)
  let goes (t : ComplexType) : Bool :=
    dropped.any fun d => d.id == t.id || s.isWithin d.id s.depthBound t
  { s with
    declared := s.declared.filter fun t => !goes t
    undeclared := s.undeclared ++ s.declared.filter goes }

def dropEnumeration (s : Schema) (name : Label) : Schema :=
  { s with enumerations := s.enumerations.filter fun e => !e.name.same name }

def addEnumeration (s : Schema) (e : Enumerated) : Schema :=
  { s with enumerations := s.enumerations ++ [e] }

def addUndeclared (s : Schema) (name : Label) : Schema × TypeId :=
  let id := s.freshId
  ({ s with undeclared := s.undeclared ++ [⟨id, name, name, none, [], []⟩] }, id)

def setRootType (s : Schema) (name : Label) : Schema :=
  { s with rootType := ((s.typeNamed? name).map (·.id)).getD s.freshId }

def modifyType (s : Schema) (id : TypeId) (change : ComplexType → ComplexType) : Schema :=
  { s with declared := s.declared.map fun t => if t.id == id then change t else t }

def findType (s : Schema) (name : Label) : Except Fault ComplexType :=
  match s.typeNamed? name with
  | some t => .ok t
  | none => .error .noSuchMember

def addAttribute (s : Schema) (owner : Label) (a : Attribute) : Except Fault Schema := do
  let t ← s.findType owner
  return s.modifyType t.id fun t => { t with attributes := t.attributes ++ [a] }

def addElement (s : Schema) (owner name type : Label) (occurrence : Occurrence) :
    Except Fault Schema := do
  let t ← s.findType owner
  let target ← s.findType type
  return s.modifyType t.id fun t =>
    { t with elements := t.elements ++ [⟨name, .complex target.id, occurrence⟩] }

/-- Nests a new type without content in a declared type, after the types nested there before. -/
def nest (s : Schema) (owner name : Label) : Except Fault Schema := do
  let t ← s.findType owner
  let child : ComplexType :=
    ⟨s.freshId, name, qualified (some t.qualifiedName) name, some t.id, [], []⟩
  let upTo := s.declared.takeWhile (·.id != t.id)
  let after := (s.declared.dropWhile (·.id != t.id)).drop 1
  let inside := after.takeWhile (s.isWithin t.id s.depthBound)
  return { s with
    declared := upTo ++ t :: inside ++ child :: after.drop inside.length }

end XmlRecords.Schema
