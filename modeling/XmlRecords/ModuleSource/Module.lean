import XmlRecords.ModuleSource.RecordClass

/-!
Generated modules as groups of declarations, each of which binds names at the top level.
-/

set_option autoImplicit false
set_option relaxedAutoImplicit false

namespace XmlRecords.ModuleSource

/-- The class of an enumeration: its texts under their tags, numbered from 0 on. -/
structure EnumClass where
  className : String
  tags : List (String × String)
  deriving DecidableEq, Repr

def EnumClass.body (c : EnumClass) : List Line :=
  (if c.tags.isEmpty then []
    else
      Line.plain 0 "__canonical__ = \x7b" ::
        c.tags.map (fun (tag, text) => ⟨1, [.literal tag, ": ", .literal text, ","]⟩) ++
        [Line.plain 0 "\x7d"]) ++
    [Line.blank, .plain 0 "UNKNOWN = -1"] ++
    c.tags.zipIdx.map fun ((tag, _), n) => ⟨0, [.name tag, " = ", .name (toString n)]⟩

inductive Declaration where
  /-- Names of another module, all on one line. -/
  | imports (moduleName : String) (names : List String)
  /-- Enumerations of another module, one a line. -/
  | enumImports (moduleName : String) (classNames : List String)
  | constant (name : String) (value : List Piece)
  | recordClass (c : RecordClass)
  | enumClass (c : EnumClass)
  | function (m : Method)
  deriving DecidableEq, Repr

namespace Declaration

def boundNames : Declaration → List String
  | .imports _ names => names
  | .enumImports _ classNames => classNames
  | .constant name _ => [name]
  | .recordClass c => [c.className]
  | .enumClass c => [c.className]
  | .function m => [m.name]

def lines : Declaration → List Line
  | .imports moduleName names =>
    [⟨0, ["from ", moduleName, " import ", ", ".intercalate names]⟩]
  | .enumImports moduleName classNames =>
    ⟨0, ["from ", moduleName, " import ("]⟩ ::
      classNames.map (fun name => ⟨1, [.enumClass name, ","]⟩) ++ [Line.plain 0 ")"]
  | .constant name value => [⟨0, .name name :: .plain " = " :: value⟩]
  | .recordClass c =>
    .plain 0 "@dataclass(frozen=True)" :: ⟨0, ["class ", .recordClass c.className, "(Record):"]⟩ ::
      c.body.map (Line.indent 1)
  | .enumClass c => ⟨0, ["class ", .enumClass c.className, "(XsdEnum):"]⟩ :: c.body.map (Line.indent 1)
  | .function m => m.lines

end Declaration

/-- Declarations without blank lines between them, after so many blank lines. -/
structure Group where
  space : Nat
  declarations : List Declaration
  deriving DecidableEq, Repr

def Group.lines (g : Group) : List Line :=
  if g.declarations.isEmpty then []
  else List.replicate g.space .blank ++ g.declarations.flatMap Declaration.lines

end XmlRecords.ModuleSource

namespace XmlRecords

structure ModuleSource where
  doc : List String
  groups : List ModuleSource.Group
  deriving DecidableEq, Repr

namespace ModuleSource

def declarations (m : ModuleSource) : List Declaration := m.groups.flatMap (·.declarations)

def boundNames (m : ModuleSource) : List String := m.declarations.flatMap Declaration.boundNames

def docText (m : ModuleSource) : String := String.join (m.doc.map (· ++ "\n"))

/-- The lines of a module, of which the first is the documentation with the line ends in it. -/
def lines (m : ModuleSource) : List Line := ⟨0, [.doc m.docText]⟩ :: m.groups.flatMap Group.lines

def print (m : ModuleSource) : String :=
  String.join (m.lines.map fun line => line.print ++ "\n")

end ModuleSource

end XmlRecords
