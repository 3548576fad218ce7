import XmlRecords.Proofs.CodecText
import XmlRecords.Proofs.Reading

/-!
Items of simple type there and back: which of the items that documents give are read again from the
texts they are written as.
-/

set_option autoImplicit false
set_option relaxedAutoImplicit false

namespace XmlRecords

open Xml

theorem normalized_of_plain {text : String} (plain : '\r' ∉ text.toList) :
    String.ofList (normalizeLines false text.toList) = text := by
  rw [(normalizeLines_eq_self_iff _).mpr plain, String.ofList_toList]

namespace Field

/-- A value is the item that a text gives. Empty text stands for the zero value where the field is
repeated, else for the initial value of the field. -/
def TextOf (f : Field) (codec : Codec) (raw : String) (v : Value) : Prop :=
  if raw = "" then if f.key.occurrence = .repeated then v = codec.zero else f.initial = .ok v
  else codec.read raw = .ok v

/-- A value is the item that some text gives, and not the absence of one. -/
def Given (f : Field) (codec : Codec) (v : Value) : Prop :=
  (f.key.occurrence = .optional → v ≠ .absent) ∧ ∃ raw, Legible raw.toList ∧ f.TextOf codec raw v

/-- The text that a reader of documents finds where a text was written: line ends are only kept in
attributes. -/
def carried (f : Field) (text : String) : String :=
  if f.key.isAttribute = true then text else String.ofList (normalizeLines false text.toList)

/-- Fields with proper codecs, no lists outside attributes, and defaults that are read from texts. -/
def Typed (fields : List Field) : Prop :=
  ∀ f ∈ fields, ∀ codec, f.codec? = some codec →
    codec.Proper ∧ (f.key.isAttribute = false → codec.IsFlat) ∧
      (f.default = .absent ∨ ∃ text, Legible text.toList ∧ codec.read text = .ok f.default)

/-- An item comes back from its text: its tags are kept, an empty list is what the field holds when
nothing is given, and the text of an element has no carriage return. -/
structure Keeps (f : Field) (codec : Codec) (v : Value) : Prop where
  tags : codec.Keeps v
  filled : v = .list [] → f.initial = .ok v
  lines : f.key.isAttribute = false → ∀ text, codec.write v = .ok text → '\r' ∉ text.toList

variable {fields : List Field} {f : Field} {codec : Codec} {v w : Value} {text : String}

theorem itemOf_iff_textOf (simple : f.codec? = some codec) (child : StartTag × List Node) :
    f.ItemOf child v ↔ f.TextOf codec (Node.directText child.2) v := by
  cases f with
  | nested key inner default => cases simple
  | simple key codec' default =>
    obtain rfl := Option.some.inj simple
    rfl

theorem itemOf_iff_fromNode {inner : RecordType} (nested : f.type? = some inner)
    (child : StartTag × List Node) :
    f.ItemOf child v ↔ inner.fromNode (.element child.1 child.2) = .ok v := by
  cases f with
  | simple key codec default => cases nested
  | nested key inner' default =>
    obtain rfl := Option.some.inj nested
    rfl

theorem initial_eq_ok (simple : f.codec? = some codec) (single : f.key.occurrence ≠ .repeated)
    (filled : f.initial = .ok v) :
    f.key.occurrence = .optional ∧ v = .absent ∨ v = codec.zero ∨
      f.default = v ∧ v ≠ .absent := by
  cases f with
  | nested key inner default => cases simple
  | simple key codec' default =>
    obtain rfl := Option.some.inj simple
    simp only [initial, Field.key, Field.default, zero, FieldKey.initial] at filled single ⊢
    cases occurs : key.occurrence with
    | repeated => exact absurd occurs single
    | optional =>
      simp only [occurs, Except.ok.injEq] at filled
      exact .inl ⟨rfl, filled.symm⟩
    | once =>
      rw [occurs] at filled
      cases default with
      | absent => exact .inr (.inl (Except.ok.inj filled).symm)
      | _ =>
        obtain rfl := Except.ok.inj filled
        exact .inr (.inr ⟨rfl, by simp⟩)

theorem yields_of_given (simple : f.codec? = some codec)
    (defaults : f.default = .absent ∨
      ∃ text, Legible text.toList ∧ codec.read text = .ok f.default)
    (given : f.Given codec v) : codec.Yields v := by
  obtain ⟨present, raw, legible, isItem⟩ := given
  unfold TextOf at isItem
  by_cases empty : raw = ""
  · rw [if_pos empty] at isItem
    split at isItem
    · exact .inl isItem
    · rename_i single
      rcases initial_eq_ok simple single isItem with ⟨optional, absent⟩ | isZero | ⟨isDefault, other⟩
      · exact absurd absent (present optional)
      · exact .inl isZero
      · subst isDefault
        rcases defaults with absent | ⟨text, legible, read⟩
        · exact absurd absent other
        · exact .inr ⟨text, legible, read⟩
  · rw [if_neg empty] at isItem
    exact .inr ⟨raw, legible, isItem⟩

theorem carried_eq_empty_iff (f : Field) (text : String) : f.carried text = "" ↔ text = "" := by
  unfold carried
  split
  · exact Iff.rfl
  · rw [← String.toList_inj, String.toList_ofList, ← String.toList_inj, String.toList_empty]
    cases text.toList with
    | nil => simp [normalizeLines]
    | cons c cs =>
      rw [normalizeLines]
      by_cases ret : c = '\r'
      · simp [ret]
      · simp [ret]

theorem carried_of_plain (plain : f.key.isAttribute = false → '\r' ∉ text.toList) :
    f.carried text = text := by
  unfold carried
  split
  · rfl
  · rename_i element
    exact normalized_of_plain (plain (by simpa using element))

theorem Keeps.exists_text (typed : Typed fields) (member : f ∈ fields)
    (simple : f.codec? = some codec) (given : f.Given codec v) (exact' : v.Exact)
    (keeps : f.Keeps codec v) :
    ∃ text, codec.write v = .ok text ∧ f.TextOf codec (f.carried text) v := by
  obtain ⟨proper, _, defaults⟩ := typed f member codec simple
  have yields := yields_of_given simple defaults given
  obtain ⟨text, written, read⟩ := codec.exists_text proper yields exact' keeps.tags
  refine ⟨text, written, ?_⟩
  rw [carried_of_plain fun element => keeps.lines element text written]
  unfold TextOf
  by_cases empty : text = ""
  · rw [if_pos empty]
    obtain ⟨_, raw, legibleRaw, isItem⟩ := given
    unfold TextOf at isItem
    by_cases emptyRaw : raw = ""
    · rwa [if_pos emptyRaw] at isItem
    · rw [if_neg emptyRaw] at isItem
      have isList : v = .list [] := by
        by_contra other
        exact Codec.ne_empty_of_read proper legibleRaw emptyRaw isItem written other empty
      split
      · subst isList
        obtain ⟨item, rfl⟩ := Codec.exists_item_of_yields_nil yields
        rfl
      · exact keeps.filled isList
  · rw [if_neg empty]
    exact read

theorem keeps_of_textOf (typed : Typed fields) (member : f ∈ fields)
    (single : f.key.isAttribute = true → f.key.occurrence ≠ .repeated)
    (simple : f.codec? = some codec) (given : f.Given codec v) (written : codec.write v = .ok text)
    (isItem : f.TextOf codec (f.carried text) w) (same : Value.same w v = true) :
    f.Keeps codec v := by
  obtain ⟨proper, flat, defaults⟩ := typed f member codec simple
  have yields := yields_of_given simple defaults given
  unfold TextOf at isItem
  simp only [carried_eq_empty_iff] at isItem
  have lines : f.key.isAttribute = false → '\r' ∉ text.toList := by
    intro element hasReturn
    have nonempty : text ≠ "" := by
      rintro rfl
      cases hasReturn
    rw [if_neg nonempty, carried, element] at isItem
    exact Codec.not_same_of_return (flat element) proper yields written hasReturn isItem same
  rw [carried_of_plain lines] at isItem
  refine ⟨Codec.keeps_of_read proper yields written (fun nonempty => ?_) same, ?_, ?_⟩
  · rwa [if_neg nonempty] at isItem
  · rintro rfl
    obtain ⟨item, rfl⟩ := Codec.exists_item_of_yields_nil yields
    have isAttribute : f.key.isAttribute = true := by
      cases element : f.key.isAttribute with
      | true => rfl
      | false => exact (flat element).elim
    obtain rfl := Codec.eq_empty_of_write_nil written
    rw [if_pos rfl, if_neg (single isAttribute)] at isItem
    cases w with
    | list items =>
      cases items with
      | nil => exact isItem
      | cons => simp [Value.same, Value.sameItems] at same
    | _ => simp [Value.same, Value.sameNumber, Value.numeric?] at same
  · intro element text' written'
    obtain rfl := Except.ok.inj (written.symm.trans written')
    exact lines element

end Field

end XmlRecords
