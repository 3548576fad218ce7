import XmlRecords.Proofs.Statements

/-!
The wording of generated source as it is read, whatever names, codecs, classes and literals stand between
it. Each text is read once here.
-/

set_option autoImplicit false
set_option relaxedAutoImplicit false

namespace XmlRecords.SourceText

theorem fragment?_items :
    fragment? "bool" = some ⟨[.word "bool"], true, false, true⟩ ∧
    fragment? "int" = some ⟨[.word "int"], true, false, true⟩ ∧
    fragment? "str" = some ⟨[.word "str"], true, false, true⟩ ∧
    fragment? "float" = some ⟨[.word "float"], true, false, true⟩ ∧
    fragment? "tuple[" = some ⟨[.word "tuple", .sign '['], false, false, true⟩ ∧
    fragment? ", ...]" =
      some ⟨[.sign ',', .sign '.', .sign '.', .sign '.', .sign ']'], false, true, true⟩ ∧
    fragment? " | None" = some ⟨[.sign '|', .word "None"], true, true, false⟩ ∧
    fragment? "None" = some ⟨[.word "None"], true, false, true⟩ := by
  refine ⟨?_, ?_, ?_, ?_, ?_, ?_, ?_, ?_⟩ <;>
    exact fragment?_of_chars rfl rfl

theorem fragment?_builtIn :
    fragment? "values.BOOL" = some ⟨[.word "values", .sign '.', .word "BOOL"], true, false, true⟩ ∧
    fragment? "values.INT32" = some ⟨[.word "values", .sign '.', .word "INT32"], true, false, true⟩ ∧
    fragment? "values.INT64" = some ⟨[.word "values", .sign '.', .word "INT64"], true, false, true⟩ ∧
    fragment? "values.UINT32" = some ⟨[.word "values", .sign '.', .word "UINT32"], true, false, true⟩ ∧
    fragment? "values.STRING" = some ⟨[.word "values", .sign '.', .word "STRING"], true, false, true⟩ ∧
    fragment? "values.FLOAT" = some ⟨[.word "values", .sign '.', .word "FLOAT"], true, false, true⟩ ∧
    fragment? "values.DOUBLE" = some ⟨[.word "values", .sign '.', .word "DOUBLE"], true, false, true⟩ := by
  refine ⟨?_, ?_, ?_, ?_, ?_, ?_, ?_⟩ <;>
    exact fragment?_of_chars rfl rfl

theorem fragment?_method :
    fragment? "def " = some ⟨[.word "def"], false, false, true⟩ ∧
    fragment? "(" = some ⟨[.sign '('], false, true, true⟩ ∧
    fragment? ") -> " = some ⟨[.sign ')', .sign '-', .sign '>'], false, true, true⟩ ∧
    fragment? ":" = some ⟨[.sign ':'], false, true, true⟩ ∧
    fragment? "@classmethod" = some ⟨[.sign '@', .word "classmethod"], true, true, true⟩ ∧
    fragment? "self" = some ⟨[.word "self"], true, false, true⟩ ∧
    fragment? ": " = some ⟨[.sign ':'], false, true, true⟩ := by
  refine ⟨?_, ?_, ?_, ?_, ?_, ?_, ?_⟩ <;>
    exact fragment?_of_chars rfl rfl

theorem fragment?_accessors :
    fragment? "return True" = some ⟨[.word "return", .word "True"], true, false, true⟩ ∧
    fragment? "return self." = some ⟨[.word "return", .word "self", .sign '.'], false, false, true⟩ ∧
    fragment? " is not None" = some ⟨[.word "is", .word "not", .word "None"], true, true, false⟩ ∧
    fragment? "return len(self." =
      some ⟨[.word "return", .word "len", .sign '(', .word "self", .sign '.'], false, false, true⟩ ∧
    fragment? ") > 0" = some ⟨[.sign ')', .sign '>', .word "0"], true, true, true⟩ ∧
    fragment? "if self." = some ⟨[.word "if", .word "self", .sign '.'], false, false, true⟩ ∧
    fragment? " is None:" = some ⟨[.word "is", .word "None", .sign ':'], false, true, false⟩ ∧
    fragment? "raise FieldNotPresentError(" =
      some ⟨[.word "raise", .word "FieldNotPresentError", .sign '('], false, false, true⟩ ∧
    fragment? ", " = some ⟨[.sign ','], false, true, true⟩ ∧
    fragment? ")" = some ⟨[.sign ')'], false, true, true⟩ ∧
    fragment? "[0] if self." =
      some ⟨[.sign '[', .word "0", .sign ']', .word "if", .word "self", .sign '.'], false, true, true⟩ ∧
    fragment? " else None" = some ⟨[.word "else", .word "None"], true, true, false⟩ := by
  refine ⟨?_, ?_, ?_, ?_, ?_, ?_, ?_, ?_, ?_, ?_, ?_, ?_⟩ <;>
    exact fragment?_of_chars rfl rfl

theorem fragment?_readers :
    fragment? ".parse(" = some ⟨[.sign '.', .word "parse", .sign '('], false, true, true⟩ ∧
    fragment? ".zero()" = some ⟨[.sign '.', .word "zero", .sign '(', .sign ')'], false, true, true⟩ ∧
    fragment? ".empty()" = some ⟨[.sign '.', .word "empty", .sign '(', .sign ')'], false, true, true⟩ ∧
    fragment? ") if " = some ⟨[.sign ')', .word "if"], false, true, true⟩ ∧
    fragment? " != \"\" else " =
      some ⟨[.sign '!', .sign '=', .literal [], .word "else"], false, true, false⟩ ∧
    fragment? ".read(child)" =
      some ⟨[.sign '.', .word "read", .sign '(', .word "child", .sign ')'], false, true, true⟩ ∧
    fragment? "raw = nodes.get_attribute(node, " =
      some ⟨[.word "raw", .sign '=', .word "nodes", .sign '.', .word "get_attribute", .sign '(',
        .word "node", .sign ','], false, false, true⟩ ∧
    fragment? " = " = some ⟨[.sign '='], false, true, false⟩ ∧
    fragment? "[]" = some ⟨[.sign '[', .sign ']'], false, true, true⟩ ∧
    fragment? "text = nodes.node_text(child)" =
      some ⟨[.word "text", .sign '=', .word "nodes", .sign '.', .word "node_text", .sign '(',
        .word "child", .sign ')'], false, false, true⟩ ∧
    fragment? " tag == " = some ⟨[.word "tag", .sign '=', .sign '='], false, true, false⟩ ∧
    fragment? ".append(" = some ⟨[.sign '.', .word "append", .sign '('], false, true, true⟩ ∧
    fragment? "if " = some ⟨[.word "if"], false, false, true⟩ ∧
    fragment? "for child in nodes.iter_children(node):" =
      some ⟨[.word "for", .word "child", .word "in", .word "nodes", .sign '.', .word "iter_children",
        .sign '(', .word "node", .sign ')', .sign ':'], false, false, true⟩ ∧
    fragment? "tag = nodes.local_name(child)" =
      some ⟨[.word "tag", .sign '=', .word "nodes", .sign '.', .word "local_name", .sign '(',
        .word "child", .sign ')'], false, false, true⟩ ∧
    fragment? "=tuple(" = some ⟨[.sign '=', .word "tuple", .sign '('], false, true, true⟩ ∧
    fragment? ")," = some ⟨[.sign ')', .sign ','], false, true, true⟩ ∧
    fragment? "=" = some ⟨[.sign '='], false, true, true⟩ ∧
    fragment? "," = some ⟨[.sign ','], false, true, true⟩ ∧
    fragment? "return cls()" =
      some ⟨[.word "return", .word "cls", .sign '(', .sign ')'], false, false, true⟩ ∧
    fragment? "return cls(" = some ⟨[.word "return", .word "cls", .sign '('], false, false, true⟩ ∧
    fragment? "cls, node: etree._Element" =
      some ⟨[.word "cls", .sign ',', .word "node", .sign ':', .word "etree", .sign '.',
        .word "_Element"], true, false, true⟩ := by
  refine ⟨?_, ?_, ?_, ?_, ?_, ?_, ?_, ?_, ?_, ?_, ?_, ?_, ?_, ?_, ?_, ?_, ?_, ?_, ?_, ?_, ?_, ?_⟩ <;>
    exact fragment?_of_chars rfl rfl

theorem fragment?_writers :
    fragment? "for value in self." =
      some ⟨[.word "for", .word "value", .word "in", .word "self", .sign '.'], false, false, true⟩ ∧
    fragment? "self." = some ⟨[.word "self", .sign '.'], false, false, true⟩ ∧
    fragment? " is not None:" =
      some ⟨[.word "is", .word "not", .word "None", .sign ':'], false, true, false⟩ ∧
    fragment? "writer.write_attribute(out, " =
      some ⟨[.word "writer", .sign '.', .word "write_attribute", .sign '(', .word "out",
        .sign ','], false, false, true⟩ ∧
    fragment? ".format(" = some ⟨[.sign '.', .word "format", .sign '('], false, true, true⟩ ∧
    fragment? "))" = some ⟨[.sign ')', .sign ')'], false, true, true⟩ ∧
    fragment? "writer.write_text_element(out, " =
      some ⟨[.word "writer", .sign '.', .word "write_text_element", .sign '(', .word "out",
        .sign ','], false, false, true⟩ ∧
    fragment? "), depth + 1)" =
      some ⟨[.sign ')', .sign ',', .word "depth", .sign '+', .word "1", .sign ')'], false, true, true⟩ ∧
    fragment? ".write(out, " =
      some ⟨[.sign '.', .word "write", .sign '(', .word "out", .sign ','], false, true, true⟩ ∧
    fragment? ", depth + 1)" =
      some ⟨[.sign ',', .word "depth", .sign '+', .word "1", .sign ')'], false, true, true⟩ ∧
    fragment? "self, out: TextIO, name: str, depth: int = 0" =
      some ⟨[.word "self", .sign ',', .word "out", .sign ':', .word "TextIO", .sign ',', .word "name",
        .sign ':', .word "str", .sign ',', .word "depth", .sign ':', .word "int", .sign '=',
        .word "0"], true, false, true⟩ ∧
    fragment? "indent = writer.INDENT * depth" =
      some ⟨[.word "indent", .sign '=', .word "writer", .sign '.', .word "INDENT", .sign '*',
        .word "depth"], true, false, true⟩ ∧
    fragment? "out.write(f\"\x7bindent\x7d<\x7bname\x7d\")" =
      some ⟨[.word "out", .sign '.', .word "write", .sign '(',
        .formatted [123, 105, 110, 100, 101, 110, 116, 125, 60, 123, 110, 97, 109, 101, 125],
        .sign ')'], false, false, true⟩ ∧
    fragment? "out.write(\">\\n\")" =
      some ⟨[.word "out", .sign '.', .word "write", .sign '(', .literal [62, 10],
        .sign ')'], false, false, true⟩ ∧
    fragment? "out.write(f\"\x7bindent\x7d</\x7bname\x7d>\\n\")" =
      some ⟨[.word "out", .sign '.', .word "write", .sign '(',
        .formatted [123, 105, 110, 100, 101, 110, 116, 125, 60, 47, 123, 110, 97, 109, 101, 125, 62, 10],
        .sign ')'], false, false, true⟩ := by
  refine ⟨?_, ?_, ?_, ?_, ?_, ?_, ?_, ?_, ?_, ?_, ?_, ?_, ?_, ?_, ?_⟩ <;>
    exact fragment?_of_chars rfl rfl

theorem fragment?_declarations :
    fragment? "__xsd_name__ = " = some ⟨[.word "__xsd_name__", .sign '='], false, false, true⟩ ∧
    fragment? "@dataclass(frozen=True)" =
      some ⟨[.sign '@', .word "dataclass", .sign '(', .word "frozen", .sign '=', .word "True",
        .sign ')'], false, true, true⟩ ∧
    fragment? "class " = some ⟨[.word "class"], false, false, true⟩ ∧
    fragment? "(Record):" = some ⟨[.sign '(', .word "Record", .sign ')', .sign ':'], false, true, true⟩ ∧
    fragment? "(XsdEnum):" =
      some ⟨[.sign '(', .word "XsdEnum", .sign ')', .sign ':'], false, true, true⟩ ∧
    fragment? "from " = some ⟨[.word "from"], false, false, true⟩ ∧
    fragment? " import " = some ⟨[.word "import"], false, true, false⟩ ∧
    fragment? " import (" = some ⟨[.word "import", .sign '('], false, true, false⟩ ∧
    fragment? "__canonical__ = \x7b" =
      some ⟨[.word "__canonical__", .sign '=', .sign '\x7b'], false, false, true⟩ ∧
    fragment? "\x7d" = some ⟨[.sign '\x7d'], false, true, true⟩ ∧
    fragment? "UNKNOWN = -1" =
      some ⟨[.word "UNKNOWN", .sign '=', .sign '-', .word "1"], true, false, true⟩ ∧
    fragment? "values.EnumCodec(" =
      some ⟨[.word "values", .sign '.', .word "EnumCodec", .sign '('], false, false, true⟩ ∧
    fragment? "values.ListCodec(" =
      some ⟨[.word "values", .sign '.', .word "ListCodec", .sign '('], false, false, true⟩ := by
  refine ⟨?_, ?_, ?_, ?_, ?_, ?_, ?_, ?_, ?_, ?_, ?_, ?_, ?_⟩ <;>
    exact fragment?_of_chars rfl rfl

theorem fragment?_imports :
    fragment? "annotations" = some ⟨[.word "annotations"], true, false, true⟩ ∧
    fragment? "dataclass" = some ⟨[.word "dataclass"], true, false, true⟩ ∧
    fragment? "TextIO" = some ⟨[.word "TextIO"], true, false, true⟩ ∧
    fragment? "etree" = some ⟨[.word "etree"], true, false, true⟩ ∧
    fragment? "document, nodes, values, writer" =
      some ⟨[.word "document", .sign ',', .word "nodes", .sign ',', .word "values", .sign ',',
        .word "writer"], true, false, true⟩ ∧
    fragment? "DriverOptions, PathLike" =
      some ⟨[.word "DriverOptions", .sign ',', .word "PathLike"], true, false, true⟩ ∧
    fragment? "FieldNotPresentError" = some ⟨[.word "FieldNotPresentError"], true, false, true⟩ ∧
    fragment? "Record" = some ⟨[.word "Record"], true, false, true⟩ ∧
    fragment? "XsdEnum" = some ⟨[.word "XsdEnum"], true, false, true⟩ ∧
    fragment? "__future__" = some ⟨[.word "__future__"], true, false, true⟩ ∧
    fragment? "dataclasses" = some ⟨[.word "dataclasses"], true, false, true⟩ ∧
    fragment? "typing" = some ⟨[.word "typing"], true, false, true⟩ ∧
    fragment? "lxml" = some ⟨[.word "lxml"], true, false, true⟩ ∧
    fragment? "xsd_binding" = some ⟨[.word "xsd_binding"], true, false, true⟩ ∧
    fragment? "xsd_binding.document" =
      some ⟨[.word "xsd_binding", .sign '.', .word "document"], true, false, true⟩ ∧
    fragment? "xsd_binding.errors" =
      some ⟨[.word "xsd_binding", .sign '.', .word "errors"], true, false, true⟩ ∧
    fragment? "xsd_binding.records" =
      some ⟨[.word "xsd_binding", .sign '.', .word "records"], true, false, true⟩ ∧
    fragment? "xsd_binding.enums" =
      some ⟨[.word "xsd_binding", .sign '.', .word "enums"], true, false, true⟩ := by
  refine ⟨?_, ?_, ?_, ?_, ?_, ?_, ?_, ?_, ?_, ?_, ?_, ?_, ?_, ?_, ?_, ?_, ?_, ?_⟩ <;>
    exact fragment?_of_chars rfl rfl

theorem fragment?_functions :
    fragment? ", options: DriverOptions | None = None" =
      some ⟨[.sign ',', .word "options", .sign ':', .word "DriverOptions", .sign '|', .word "None",
        .sign '=', .word "None"], true, true, true⟩ ∧
    fragment? "return document." =
      some ⟨[.word "return", .word "document", .sign '.'], false, false, true⟩ ∧
    fragment? ", ROOT_ELEMENT, " =
      some ⟨[.sign ',', .word "ROOT_ELEMENT", .sign ','], false, true, true⟩ ∧
    fragment? ", options)" = some ⟨[.sign ',', .word "options", .sign ')'], false, true, true⟩ ∧
    fragment? "path: PathLike" = some ⟨[.word "path", .sign ':', .word "PathLike"], true, false, true⟩ ∧
    fragment? "xml: str | bytes" =
      some ⟨[.word "xml", .sign ':', .word "str", .sign '|', .word "bytes"], true, false, true⟩ ∧
    fragment? "out: TextIO, root: " =
      some ⟨[.word "out", .sign ':', .word "TextIO", .sign ',', .word "root",
        .sign ':'], false, false, true⟩ ∧
    fragment? "document.write(out, root, ROOT_ELEMENT)" =
      some ⟨[.word "document", .sign '.', .word "write", .sign '(', .word "out", .sign ',',
        .word "root", .sign ',', .word "ROOT_ELEMENT", .sign ')'], false, false, true⟩ ∧
    fragment? "root: " = some ⟨[.word "root", .sign ':'], false, false, true⟩ ∧
    fragment? "return document.dumps(root, ROOT_ELEMENT)" =
      some ⟨[.word "return", .word "document", .sign '.', .word "dumps", .sign '(', .word "root",
        .sign ',', .word "ROOT_ELEMENT", .sign ')'], false, false, true⟩ := by
  refine ⟨?_, ?_, ?_, ?_, ?_, ?_, ?_, ?_, ?_, ?_⟩ <;>
    exact fragment?_of_chars rfl rfl

/-! ### Common words -/

/-- The words with a capital letter in the bodies of record classes, besides names of classes. -/
def capitalWords : List String := ["None", "True", "TextIO", "FieldNotPresentError"]

/-- Holds of words of ASCII that do not look like the names of classes. -/
def isCommon (name : String) : Bool :=
  name.toList.all (·.toNat < 0x80) && (!name.toList.head?.any Char.isUpper || capitalWords.contains name)

theorem isCommon_items : isCommon "bool" ∧ isCommon "int" ∧ isCommon "str" ∧ isCommon "float" ∧
    isCommon "tuple" ∧ isCommon "None" ∧ isCommon "values" := by
  decide

theorem isCommon_accessors : isCommon "def" ∧ isCommon "self" ∧ isCommon "return" ∧ isCommon "True" ∧
    isCommon "is" ∧ isCommon "not" ∧ isCommon "len" ∧ isCommon "0" ∧ isCommon "if" ∧ isCommon "raise" ∧
    isCommon "FieldNotPresentError" ∧ isCommon "else" := by
  decide

theorem isCommon_readers : isCommon "raw" ∧ isCommon "nodes" ∧ isCommon "node" ∧ isCommon "text" ∧
    isCommon "tag" ∧ isCommon "for" ∧ isCommon "child" ∧ isCommon "in" ∧ isCommon "cls" ∧
    isCommon "etree" ∧ isCommon "elif" ∧ isCommon "classmethod" := by
  decide

theorem isCommon_writers : isCommon "value" ∧ isCommon "writer" ∧ isCommon "out" ∧ isCommon "depth" ∧
    isCommon "1" ∧ isCommon "name" ∧ isCommon "TextIO" ∧ isCommon "indent" ∧
    isCommon "__xsd_name__" := by
  decide

end XmlRecords.SourceText
