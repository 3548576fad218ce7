import XmlRecords.BoundSchema
import XmlRecords.Notice
import XmlRecords.Record.Canonical
import XmlRecords.Record.FromElement
import XmlRecords.Xml.Inclusion

/-!
Taking in documents: from a text or file to the record of its root element. A document that cannot
be loaded, is malformed, includes what it cannot, or has another root gives no record but a notice.
A value in it that does not fit its type is a fault.
-/

set_option autoImplicit false
set_option relaxedAutoImplicit false

namespace XmlRecords

open Xml

structure IntakeOptions where
  inclusion : Bool
  expandEntities : Bool
  base : Option String
  depthLimit : Option Nat

/-- Inclusions are made, entities expanded, and elements nested 257 deep at most. -/
def IntakeOptions.standard : IntakeOptions := ⟨true, true, none, some 257⟩

/-- What was taken in: the record, if there is one, and the notices on the way. -/
structure Intake where
  record : Option Value
  notices : List Notice

namespace Intake

def failure (notice : Notice) : Intake := ⟨none, [notice]⟩

/-- The record of a root element, if it has the expected name. -/
def ofRoot (source : String) (rootElement : Schema.Label) (type : RecordType) (root : Node) :
    Except Fault Intake :=
  match root with
  | .element tag _ =>
    if rootElement.same (.text tag.name) then do
      let record ← type.fromNode root
      return ⟨some record, []⟩
    else .ok (failure (.otherRoot source tag.name rootElement.shown))
  | _ => .ok ⟨none, []⟩

def ofDocument (options : IntakeOptions) (store : FileStore) (base : Option String)
    (source : String) (rootElement : Schema.Label) (type : RecordType) (root : Node) :
    Except Fault Intake :=
  if options.inclusion then
    match includeInRoot? store options.expandEntities options.depthLimit base root with
    | some root => ofRoot source rootElement type root
    | none => .ok (failure (.inclusionFailed source))
  else ofRoot source rootElement type root

def settings (options : IntakeOptions) (store : FileStore) (base : Option String) : Settings :=
  settingsAt store options.expandEntities options.depthLimit base

def parse (options : IntakeOptions) (store : FileStore) (rootElement : Schema.Label)
    (type : RecordType) (document : Source) : Except Fault Intake :=
  match document.parse? (settings options store options.base) with
  | none => .ok (failure .parseFailed)
  | some root => ofDocument options store options.base "<string>" rootElement type root

def read (options : IntakeOptions) (store : FileStore) (rootElement : Schema.Label)
    (type : RecordType) (path : String) : Except Fault Intake :=
  match store.read path with
  | .error _ => .ok (failure (.loadFailed path))
  | .ok bytes =>
    match (Source.bytes bytes).parse? (settings options store (some path)) with
    | none => .ok (failure (.loadFailed path))
    | some root => ofDocument options store (some path) path rootElement type root

end Intake

namespace BoundSchema

/-- Takes in a document of a schema given as text or bytes. Documents may be nested as deep as the options
allow: an interpreter's limit to its recursion, which a deep document can exceed while its records are
made, is left out. -/
def parse (b : BoundSchema) (options : IntakeOptions) (store : FileStore) (document : Source) :
    Except Fault Intake := do
  Intake.parse options store b.schema.rootElement (← b.rootType) document

def read (b : BoundSchema) (options : IntakeOptions) (store : FileStore) (path : String) :
    Except Fault Intake := do
  Intake.read options store b.schema.rootElement (← b.rootType) path

def write (b : BoundSchema) (record : Value) : Except Fault String :=
  record.writeDocument b.schema.rootElement.shown

end BoundSchema

end XmlRecords
