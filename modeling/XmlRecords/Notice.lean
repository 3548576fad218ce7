/-!
Notices of what happened to documents and schemas, for diagnosis.
-/

set_option autoImplicit false
set_option relaxedAutoImplicit false

namespace XmlRecords

inductive Notice where
  | loadFailed (path : String)
  | parseFailed
  | inclusionFailed (source : String)
  | otherRoot (source found expected : String)
  | bound (schema : String) (records enumerations : Nat)
  | generated (schema : String) (files : List String)
  | wrote (count : Nat) (directory : String)
  deriving DecidableEq, Repr

namespace Notice

def level : Notice → String
  | .loadFailed _ | .parseFailed | .inclusionFailed _ => "WARNING"
  | .otherRoot .. | .wrote .. => "INFO"
  | .bound .. | .generated .. => "DEBUG"

/-- The text of a notice, without the reason that the reader gives. -/
def text : Notice → String
  | .loadFailed path => s!"Failed to load {path}: <error>"
  | .parseFailed => "Failed to parse document: <error>"
  | .inclusionFailed source => s!"XInclude processing failed for {source}: <error>"
  | .otherRoot source found expected =>
    s!"Document element of {source} is '{found}', expected '{expected}'"
  | .bound schema records enumerations =>
    s!"Bound schema {schema}: {records} records, {enumerations} enums"
  | .generated schema files => s!"Generated {schema}: " ++ ", ".intercalate files
  | .wrote count directory => s!"Wrote {count} modules to {directory}"

end Notice

end XmlRecords
