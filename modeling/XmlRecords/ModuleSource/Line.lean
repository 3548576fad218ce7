import XmlRecords.Schema.Basic
import XmlRecords.Text.Literal

/-!
Lines of generated source. A line is made of pieces, in which names, codecs, classes and the texts of
literals stay apart from the wording around them until the line is printed, so that what a line mentions
can be told.
-/

set_option autoImplicit false
set_option relaxedAutoImplicit false

namespace XmlRecords.ModuleSource

def builtInName : Primitive → String
  | .bool => "values.BOOL"
  | .int32 => "values.INT32"
  | .int64 => "values.INT64"
  | .uint32 => "values.UINT32"
  | .string => "values.STRING"
  | .float => "values.FLOAT"
  | .double => "values.DOUBLE"

/-- A codec as generated source names it: that of a built-in type, or a constant of the module. -/
inductive CodecName where
  | builtIn (p : Primitive)
  | constant (name : String)
  deriving DecidableEq, Repr

def CodecName.text : CodecName → String
  | .builtIn p => builtInName p
  | .constant name => name

inductive Piece where
  /-- Wording that is the same in all generated source, except for module paths and JSON values. -/
  | plain (text : String)
  | name (word : String)
  | literal (text : String)
  /-- A text between three quotes, as it stands. -/
  | doc (text : String)
  | codec (c : CodecName)
  | recordClass (className : String)
  | enumClass (className : String)
  deriving DecidableEq, Repr

instance : Coe String Piece := ⟨.plain⟩

def Piece.print : Piece → String
  | .plain text => text
  | .name word => word
  | .literal text => Text.literal text
  | .doc text => "\"\"\"" ++ text ++ "\"\"\""
  | .codec c => c.text
  | .recordClass className => className
  | .enumClass className => className

def printPieces (pieces : List Piece) : String := String.join (pieces.map Piece.print)

structure Line where
  depth : Nat
  pieces : List Piece
  deriving DecidableEq, Repr

namespace Line

def plain (depth : Nat) (text : String) : Line := ⟨depth, [text]⟩

def blank : Line := ⟨0, []⟩

def indent (by_ : Nat) (line : Line) : Line := { line with depth := line.depth + by_ }

/-- The text of a line, each step of depth being four spaces; a blank line has none. -/
def print (line : Line) : String :=
  if line.pieces.isEmpty then ""
  else String.join (List.replicate line.depth "    ") ++ printPieces line.pieces

end Line

/-- A method or function: its name, what stands between its parentheses, and its body. -/
structure Method where
  decorators : List String
  name : String
  parameters : List Piece
  result : List Piece
  body : List Line
  deriving DecidableEq, Repr

def Method.lines (m : Method) : List Line :=
  m.decorators.map (Line.plain 0) ++
    [⟨0, Piece.plain "def " :: .name m.name :: .plain "(" :: m.parameters ++
      Piece.plain ") -> " :: m.result ++ [Piece.plain ":"]⟩] ++
    m.body.map (Line.indent 1)

end XmlRecords.ModuleSource
