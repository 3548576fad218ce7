import XmlRecords.ModuleSource.CodecTable
import XmlRecords.Record.Type

/-!
The fields of a record class in generated source: their annotations, their accessors, and the lines
that read and write them.
-/

set_option autoImplicit false
set_option relaxedAutoImplicit false

namespace XmlRecords.ModuleSource

open Schema

def builtInType : Primitive → String
  | .bool => "bool"
  | .int32 | .int64 | .uint32 => "int"
  | .string => "str"
  | .float | .double => "float"

def classNameOf (name : Label) : Except Fault String := return Identifier.recordClass (← textOf name)

def itemType (s : Schema) : DeclaredType → Except Fault (List Piece)
  | .primitive p => .ok [builtInType p]
  | .list item => do return Piece.plain "tuple[" :: (← itemType s item) ++ [Piece.plain ", ...]"]
  | .enumerated e => do return [.enumClass (← classNameOf e.name)]
  | .complex id => do
    let name := ((s.type? id).map (·.qualifiedName)).getD .null
    return [.recordClass (← classNameOf name)]

/-- What a field holds: values that a codec reads, with a default for one that is not supplied, or
records of a class. -/
inductive FieldContent where
  | simple (codec : CodecName) (default : Option String)
  | record (className : String)
  deriving DecidableEq, Repr

structure FieldSource where
  key : FieldKey
  item : List Piece
  content : FieldContent
  deriving DecidableEq, Repr

namespace FieldSource

def name (f : FieldSource) : String := f.key.name

def occurrence (f : FieldSource) : Occurrence := f.key.occurrence

def isRepeated (f : FieldSource) : Bool := f.occurrence == .repeated

def variableName (f : FieldSource) : String := f.name ++ "_"

def annotation (f : FieldSource) : List Piece :=
  match f.occurrence with
  | .once => f.item
  | .optional => f.item ++ [Piece.plain " | None"]
  | .repeated => Piece.plain "tuple[" :: f.item ++ [Piece.plain ", ...]"]

def accessor (name : String) (result : List Piece) (body : List Line) : Method :=
  ⟨[], name, ["self"], result, body⟩

def hasAccessor (f : FieldSource) : Method :=
  accessor ("has_" ++ f.name) ["bool"] <|
    match f.occurrence with
    | .once => [.plain 0 "return True"]
    | .optional => [⟨0, ["return self.", .name f.name, " is not None"]⟩]
    | .repeated => [⟨0, ["return len(self.", .name f.name, ") > 0"]⟩]

/-- The getter of a field; one of an optional field refuses to give nothing. -/
def getAccessor (record : String) (f : FieldSource) : Method :=
  let value : Line := ⟨0, ["return self.", .name f.name]⟩
  match f.occurrence with
  | .optional =>
    accessor ("get_" ++ f.name) f.item [
      ⟨0, ["if self.", .name f.name, " is None:"]⟩,
      ⟨1, ["raise FieldNotPresentError(", .literal record, ", ", .literal f.name, ")"]⟩,
      value]
  | _ => accessor ("get_" ++ f.name) f.annotation [value]

def firstAccessor (f : FieldSource) : Method :=
  accessor ("get_first_" ++ f.name) (f.item ++ [Piece.plain " | None"])
    [⟨0, ["return self.", .name f.name, "[0] if self.", .name f.name, " else None"]⟩]

def accessors (record : String) (f : FieldSource) : List Method :=
  [f.hasAccessor, f.getAccessor record] ++ if f.isRepeated then [f.firstAccessor] else []

def missing (f : FieldSource) : List Piece :=
  match f.occurrence, f.content with
  | .optional, _ => ["None"]
  | _, .simple codec (some default) => [.codec codec, ".parse(", .literal default, ")"]
  | _, .simple codec none => [.codec codec, ".zero()"]
  | _, .record className => [.recordClass className, ".empty()"]

/-- The value that a reader takes from the text in a variable, or from a child element. -/
def valueRead (f : FieldSource) (text : String) : List Piece :=
  match f.content with
  | .simple codec _ =>
    .codec codec :: .plain ".parse(" :: .name text :: .plain ") if " :: .name text ::
      .plain " != \"\" else " :: f.missing
  | .record className => [.recordClass className, ".read(child)"]

def attributeRead (f : FieldSource) : List Line := [
  ⟨0, ["raw = nodes.get_attribute(node, ", .literal f.key.xmlName, ")"]⟩,
  ⟨0, .name f.variableName :: .plain " = " :: f.valueRead "raw"⟩]

def elementStart (f : FieldSource) : Line :=
  let value : List Piece :=
    match f.occurrence, f.content with
    | .repeated, _ => ["[]"]
    | _, .record _ => ["None"]
    | _, .simple .. => f.missing
  ⟨0, .name f.variableName :: .plain " = " :: value⟩

/-- Reads a child element; `keyword` joins the test of its name to those before. -/
def childRead (keyword : String) (f : FieldSource) : List Line :=
  let test : Line := ⟨0, [.name keyword, " tag == ", .literal f.key.xmlName, ":"]⟩
  let text : List Line :=
    match f.content with
    | .simple .. => [.plain 1 "text = nodes.node_text(child)"]
    | .record _ => []
  let store : Line :=
    if f.isRepeated then
      ⟨1, Piece.name f.variableName :: .plain ".append(" :: f.valueRead "text" ++ [Piece.plain ")"]⟩
    else ⟨1, .name f.variableName :: .plain " = " :: f.valueRead "text"⟩
  test :: text ++ [store]

def recordFill (f : FieldSource) : List Line :=
  match f.occurrence, f.content with
  | .once, .record _ =>
    [⟨0, ["if ", .name f.variableName, " is None:"]⟩,
      ⟨1, .name f.variableName :: .plain " = " :: f.missing⟩]
  | _, _ => []

def argument (f : FieldSource) : Line :=
  ⟨0, .name f.name ::
    if f.isRepeated then ["=tuple(", .name f.variableName, "),"]
    else ["=", .name f.variableName, ","]⟩

/-- A line that writes a value, for each value of the field. -/
def forEach (f : FieldSource) (statement : List Piece) : List Line :=
  match f.occurrence with
  | .once => [⟨0, statement⟩]
  | .optional => [⟨0, ["if self.", .name f.name, " is not None:"]⟩, ⟨1, statement⟩]
  | .repeated => [⟨0, ["for value in self.", .name f.name, ":"]⟩, ⟨1, statement⟩]

def value (f : FieldSource) : List Piece :=
  if f.isRepeated then [.name "value"] else ["self.", .name f.name]

def attributeWrite (f : FieldSource) : List Line :=
  match f.content with
  | .simple codec _ => f.forEach <|
      Piece.plain "writer.write_attribute(out, " :: .literal f.key.xmlName :: .plain ", " ::
        .codec codec :: .plain ".format(" :: f.value ++ [Piece.plain "))"]
  | .record _ => []

def elementWrite (f : FieldSource) : List Line :=
  match f.content with
  | .simple codec _ => f.forEach <|
      Piece.plain "writer.write_text_element(out, " :: .literal f.key.xmlName :: .plain ", " ::
        .codec codec :: .plain ".format(" :: f.value ++ [Piece.plain "), depth + 1)"]
  | .record _ => f.forEach <|
      f.value ++ [Piece.plain ".write(out, ", .literal f.key.xmlName, .plain ", depth + 1)"]

end FieldSource

/-- The source of an attribute, its codec being in the table. -/
def attributeSource (s : Schema) (table : CodecTable) (a : Schema.Attribute) :
    Except Fault FieldSource := do
  let name ← textOf a.name
  let item ← itemType s a.type
  let (codec, _) ← table.refer a.type
  return ⟨⟨Identifier.field name, name, true, a.occurrence⟩, item, .simple codec a.default⟩

/-- The source of an element, its codec being in the table. -/
def elementSource (s : Schema) (table : CodecTable) (e : Schema.Element) :
    Except Fault FieldSource := do
  let name ← textOf e.name
  let item ← itemType s e.type
  let content ← match e.type with
    | .complex id =>
      FieldContent.record <$> classNameOf (((s.type? id).map (·.qualifiedName)).getD .null)
    | type => do
      let (codec, _) ← table.refer type
      pure (.simple codec none)
  return ⟨⟨Identifier.field name, name, false, e.occurrence⟩, item, content⟩

end XmlRecords.ModuleSource
