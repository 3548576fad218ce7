import XmlRecords.Enumeration
import XmlRecords.FileStore
import XmlRecords.Schema.Problem

/-!
Everything that can end an operation without a result, by its cause.
-/

set_option autoImplicit false
set_option relaxedAutoImplicit false

namespace XmlRecords

inductive Fault where
  | codec (fault : CodecFault)
  | enumeration (fault : EnumerationFault)
  | problem (problem : Schema.Problem)
  /-- An optional field that holds nothing was asked for its value. -/
  | notPresent (record field : String)
  /-- Records do not change: a field was set. -/
  | frozenSet (field : String)
  /-- Records do not change: a field was deleted. -/
  | frozenDelete (field : String)
  | noSuchSchema (name : String)
  | noSuchEnumeration (name schema : String)
  | noSuchRecord (name schema : String)
  /-- Something is of a kind that the operation does not take. -/
  | wrongKind
  /-- Something has no such member. -/
  | noSuchMember
  /-- A position lies outside a list. -/
  | outOfReach
  /-- A name or number is unsuitable in itself. -/
  | unsuitable
  | malformedDocument
  /-- The bytes are not in the encoding. -/
  | badEncoding
  | file (fault : FileFault)
  deriving Inhabited

namespace Fault

def located (cause : Schema.Cause) (location : Schema.Label) : Fault := .problem ⟨cause, location⟩

/-- What a fault says, for the faults that are explained to users. -/
def message? : Fault → Option String
  | .codec fault => if fault.isExplained then some fault.message else none
  | .problem p => some p.message
  | .notPresent record field => some s!"{record}.{field} is not present"
  | .frozenSet field => some s!"cannot assign to field '{field}'"
  | .frozenDelete field => some s!"cannot delete field '{field}'"
  | .noSuchSchema name => some s!"No bundled schema named '{name}'"
  | .noSuchEnumeration name schema => some s!"No enumeration '{name}' in schema {schema}"
  | .noSuchRecord name schema => some s!"No complex type '{name}' in schema {schema}"
  | _ => none

def isUnsuitable : Fault → Bool
  | .codec fault => fault.isUnsuitable
  | .enumeration .reservedTag | .enumeration .unnameable => true
  | .unsuitable | .badEncoding => true
  | _ => false

end Fault

def ofCodec {α : Type} (result : Except CodecFault α) : Except Fault α := result.mapError .codec

end XmlRecords
