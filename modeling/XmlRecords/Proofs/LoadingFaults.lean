import XmlRecords.Proofs.DefinitionFaults
import XmlRecords.Proofs.JsonFaults
import XmlRecords.Schema.Catalog

/-!
How loading ends, from a definition or from a file. There is a schema, or a problem is reported, if
the definition holds values of the right kinds; a file has to be text besides, without integers of
too many digits. What escapes otherwise tells which of the three is missing.
-/

set_option autoImplicit false
set_option relaxedAutoImplicit false

namespace XmlRecords.Schema

def Explained {α : Type} (result : Except Fault α) : Prop :=
  (∃ a, result = .ok a) ∨ ∃ problem, result = .error (.problem problem)

theorem Tells.explained {α : Type} {fit : Prop} {result : Except Fault α}
    (tells : Tells fit result) (holds : fit) : Explained result := by
  cases given : result with
  | ok a => exact .inl ⟨a, rfl⟩
  | error fault =>
    rcases tells.faults fault given with ⟨problem, rfl⟩ | ⟨_, unfit⟩
    · exact .inr ⟨problem, rfl⟩
    · exact absurd holds unfit

def contentOf (bytes : List UInt8) : Option String :=
  (String.fromUTF8? ⟨bytes.toArray⟩).map fun text =>
    String.ofList (Xml.normalizeLines false text.toList)

/-- A fault that escapes from the content of a file: it is no text, or has more digits in a row than
an integer may have, or defines a schema with values of other kinds. -/
inductive Escapes (bytes : List UInt8) : Fault → Prop
  | encoding : contentOf bytes = none → Escapes bytes .badEncoding
  | digits {text : String} :
      contentOf bytes = some text → Json.Overlong text.toList → Escapes bytes .unsuitable
  | kind {text : String} {definition : Json} :
      contentOf bytes = some text → Json.read text = .ok definition → ¬ Fit definition →
      Escapes bytes .wrongKind

theorem fault_of_ofBytes {path : String} {bytes : List UInt8} {fault : Fault}
    (failed : ofBytes path bytes = .error fault) :
    (∃ problem, fault = .problem problem) ∨ Escapes bytes fault := by
  unfold ofBytes at failed
  split at failed
  · rename_i torn
    obtain rfl := Except.error.inj failed
    exact .inr (.encoding (by rw [contentOf, torn, Option.map_none]))
  · rename_i raw decoded
    have content : contentOf bytes = some (String.ofList (Xml.normalizeLines false raw.toList)) := by
      rw [contentOf, decoded, Option.map_some]
    simp only at failed
    split at failed
    · rename_i definition read
      refine ((tells_load definition (.text path)).faults fault failed).imp_right ?_
      rintro ⟨rfl, unfit⟩
      exact .kind content read unfit
    · rename_i stop refused
      split at failed
      · rename_i digits long
        obtain rfl := Except.error.inj failed
        exact .inr (.digits content (Json.overlong_of_read refused long))
      · exact .inl ⟨_, (Except.error.inj failed).symm⟩

theorem fault_of_loadFile {store : FileStore} {path : String} {fault : Fault}
    (failed : loadFile store path = .error fault) :
    (∃ problem, fault = .problem problem) ∨
      ∃ bytes, store.read (plainPath path) = .ok bytes ∧ Escapes bytes fault := by
  unfold loadFile at failed
  simp only at failed
  split at failed
  · rename_i bytes isRead
    exact (fault_of_ofBytes failed).imp_right fun escapes => ⟨bytes, isRead, escapes⟩
  · exact .inl ⟨_, (Except.error.inj failed).symm⟩

end XmlRecords.Schema
