import XmlRecords.ModuleSource.FieldSource

/-!
Record classes in generated source: one for each complex type, with the annotations and accessors of
its fields and the methods that read and write it.
-/

set_option autoImplicit false
set_option relaxedAutoImplicit false

namespace XmlRecords.ModuleSource

open Schema

structure RecordClass where
  className : String
  name : String
  attributes : List FieldSource
  elements : List FieldSource
  deriving DecidableEq, Repr

namespace RecordClass

def fields (c : RecordClass) : List FieldSource := c.attributes ++ c.elements

def doc (c : RecordClass) : String := s!"Record for complex type '{c.name}'."

def annotations (c : RecordClass) : List (String × List Piece) :=
  c.fields.map fun f => (f.name, f.annotation)

def accessors (c : RecordClass) : List Method := c.fields.flatMap (·.accessors c.name)

/-- The tests of a child's name against each element, with what they lead to. -/
def childReads : List FieldSource → List Line
  | [] => []
  | f :: fs => f.childRead "if" ++ fs.flatMap (·.childRead "elif")

/-- Reads the elements: each starts with a value, and the children replace it or add to it. -/
def elementReads (c : RecordClass) : List Line :=
  if c.elements.isEmpty then []
  else
    c.elements.map (·.elementStart) ++
      [Line.plain 0 "for child in nodes.iter_children(node):",
        .plain 1 "tag = nodes.local_name(child)"] ++
      (childReads c.elements).map (Line.indent 1) ++
      c.elements.flatMap (·.recordFill)

def construction (c : RecordClass) : List Line :=
  if c.fields.isEmpty then [.plain 0 "return cls()"]
  else
    Line.plain 0 "return cls(" :: c.fields.map (fun f => f.argument.indent 1) ++ [Line.plain 0 ")"]

def readMethod (c : RecordClass) : Method where
  decorators := ["@classmethod"]
  name := "read"
  parameters := ["cls, node: etree._Element"]
  result := [.recordClass c.className]
  body := c.attributes.flatMap (·.attributeRead) ++ c.elementReads ++ c.construction

def writeMethod (c : RecordClass) : Method where
  decorators := []
  name := "write"
  parameters := ["self, out: TextIO, name: str, depth: int = 0"]
  result := ["None"]
  body :=
    [Line.plain 0 "indent = writer.INDENT * depth",
      .plain 0 "out.write(f\"\x7bindent\x7d<\x7bname\x7d\")"] ++
      c.attributes.flatMap (·.attributeWrite) ++
      [Line.plain 0 "out.write(\">\\n\")"] ++
      c.elements.flatMap (·.elementWrite) ++
      [Line.plain 0 "out.write(f\"\x7bindent\x7d</\x7bname\x7d>\\n\")"]

def methods (c : RecordClass) : List Method := c.accessors ++ [c.readMethod, c.writeMethod]

def body (c : RecordClass) : List Line :=
  [⟨0, [.doc c.doc]⟩, Line.blank, ⟨0, ["__xsd_name__ = ", .literal c.name]⟩] ++
    (if c.fields.isEmpty then []
      else Line.blank :: c.annotations.map fun (name, pieces) => ⟨0, .name name :: .plain ": " :: pieces⟩) ++
    c.methods.flatMap fun m => Line.blank :: m.lines

end RecordClass

/-- The simple types of a complex type as reading it comes to need their codecs: the attributes, the
elements that start with a value, and the repeated ones. -/
def codecTypes (t : ComplexType) : List DeclaredType :=
  let simple := t.elements.filter fun e =>
    match e.type with
    | .complex _ => false
    | _ => true
  t.attributes.map (·.type) ++ (simple.filter (·.occurrence != .repeated)).map (·.type) ++
    (simple.filter (·.occurrence == .repeated)).map (·.type)

/-- The class of a complex type, with the codec constants defined that it needs. -/
def recordClassOf (s : Schema) (table : CodecTable) (t : ComplexType) :
    Except Fault (RecordClass × CodecTable) := do
  let name ← textOf t.qualifiedName
  let _ ← (t.attributes.map (·.type) ++ t.elements.map (·.type)).mapM (itemType s)
  let table ← table.referAll (codecTypes t)
  let attributes ← t.attributes.mapM (attributeSource s table)
  let elements ← t.elements.mapM (elementSource s table)
  return (⟨Identifier.recordClass name, name, attributes, elements⟩, table)

def recordClassesOf (s : Schema) :
    (table : CodecTable) → List ComplexType → Except Fault (List RecordClass × CodecTable)
  | table, [] => .ok ([], table)
  | table, t :: ts => do
    let (c, table) ← recordClassOf s table t
    let (cs, table) ← recordClassesOf s table ts
    return (c :: cs, table)

end XmlRecords.ModuleSource
