import XmlRecords.Proofs.RecordShape

/-!
The items of a record: what its fields hold, field by field. Laws about whole records go by
induction on their items, those of records inside records included.
-/

set_option autoImplicit false
set_option relaxedAutoImplicit false

namespace XmlRecords

/-- The items that a field holds: those of its list if it is repeated, else its value unless that
is absent. -/
def Field.present (f : Field) (v : Value) : List Value :=
  match f.key.occurrence, v with
  | .repeated, .list items => items
  | .repeated, _ => []
  | .optional, .absent => []
  | _, v => [v]

/-- The items of fields, each with its field, in declaration order. -/
def presentItems : List Field → List Value → List (Field × Value)
  | f :: fields, v :: values => (f.present v).map (f, ·) ++ presentItems fields values
  | _, _ => []

/-- There is a value for each field, and a list for each repeated one. -/
def Shaped (fields : List Field) (values : List Value) : Prop :=
  List.Forall₂ (fun f v => f.key.occurrence = .repeated → ∃ items, v = .list items) fields values

/-- Items of the kinds their fields hold: simple ones as `P` says, and records with a value for each
field, the items of which are again so. -/
inductive Conforms (P : Field → Codec → Value → Prop) : List (Field × Value) → Prop
  | nil : Conforms P []
  | simple {f : Field} {codec : Codec} {item : Value} {rest : List (Field × Value)} :
      f.codec? = some codec → P f codec item → Conforms P rest → Conforms P ((f, item) :: rest)
  | record {f : Field} {inner : RecordType} {values : List Value} {rest : List (Field × Value)} :
      f.type? = some inner → Shaped inner.fields values →
      Conforms P (presentItems inner.fields values) → Conforms P rest →
      Conforms P ((f, .record inner.layout values) :: rest)

def RecordType.Holds (P : Field → Codec → Value → Prop) (type : RecordType) (v : Value) : Prop :=
  ∃ values, v = .record type.layout values ∧ Shaped type.fields values ∧
    Conforms P (presentItems type.fields values)

/-- An item of a field is as `P` says: it is simple itself, or a record with such items. -/
def Field.Item (P : Field → Codec → Value → Prop) (f : Field) (v : Value) : Prop :=
  (∃ codec, f.codec? = some codec ∧ P f codec v) ∨ ∃ inner, f.type? = some inner ∧ inner.Holds P v

namespace Field

variable {f : Field} {v : Value}

theorem present_repeated (repeated : f.key.occurrence = .repeated) (items : List Value) :
    f.present (.list items) = items := by
  unfold present
  rw [repeated]

theorem present_once (once : f.key.occurrence = .once) (v : Value) : f.present v = [v] := by
  unfold present
  rw [once]

theorem present_absent (optional : f.key.occurrence = .optional) : f.present .absent = [] := by
  unfold present
  rw [optional]

theorem present_optional (optional : f.key.occurrence = .optional) (given : v ≠ .absent) :
    f.present v = [v] := by
  unfold present
  rw [optional]
  cases v with
  | absent => exact absurd rfl given
  | _ => rfl

theorem present_single (single : f.key.occurrence ≠ .repeated) :
    f.present v = [v] ∨ f.key.occurrence = .optional ∧ v = .absent ∧ f.present v = [] := by
  cases occurs : f.key.occurrence with
  | repeated => exact absurd occurs single
  | once => exact .inl (present_once occurs v)
  | optional =>
    by_cases absent : v = .absent
    · subst absent
      exact .inr ⟨rfl, rfl, present_absent occurs⟩
    · exact .inl (present_optional occurs absent)

theorem ne_absent_of_mem_present (optional : f.key.occurrence = .optional) {item : Value}
    (member : item ∈ f.present v) : item ≠ .absent := by
  by_cases absent : v = .absent
  · rw [absent, present_absent optional] at member
    cases member
  · rw [present_optional optional absent] at member
    rw [List.mem_singleton.mp member]
    exact absent

theorem length_present_le_one (single : f.key.occurrence ≠ .repeated) (v : Value) :
    (f.present v).length ≤ 1 := by
  unfold present
  cases occurs : f.key.occurrence with
  | repeated => exact absurd occurs single
  | once => exact Nat.le_refl 1
  | optional => cases v <;> simp

end Field

theorem mem_presentItems {fields : List Field} {values : List Value} {entry : Field × Value}
    (member : entry ∈ presentItems fields values) : entry.1 ∈ fields := by
  induction fields generalizing values with
  | nil => cases member
  | cons f fields ih =>
    cases values with
    | nil => cases member
    | cons v values =>
      rcases List.mem_append.mp member with here | below
      · obtain ⟨item, _, rfl⟩ := List.mem_map.mp here
        exact List.mem_cons_self
      · exact List.mem_cons_of_mem f (ih below)

theorem mem_presentItems_of_zip {fields : List Field} {values : List Value} {f : Field} {v : Value}
    (aligned : (f, v) ∈ fields.zip values) {item : Value} (inside : item ∈ f.present v) :
    (f, item) ∈ presentItems fields values := by
  induction fields generalizing values with
  | nil => cases aligned
  | cons g fields ih =>
    cases values with
    | nil => cases aligned
    | cons w values =>
      rcases List.mem_cons.mp aligned with same | below
      · obtain ⟨rfl, rfl⟩ := Prod.mk.inj same
        exact List.mem_append_left _ (List.mem_map_of_mem inside)
      · exact List.mem_append_right _ (ih below)

theorem exists_of_mem_presentItems {R : Field → Value → Prop} {fields : List Field}
    {values : List Value} (related : List.Forall₂ R fields values) {entry : Field × Value}
    (member : entry ∈ presentItems fields values) :
    ∃ v, R entry.1 v ∧ entry.2 ∈ entry.1.present v := by
  induction related with
  | nil => cases member
  | @cons f v fields values holds _ ih =>
    rcases List.mem_append.mp member with here | below
    · obtain ⟨item, inside, rfl⟩ := List.mem_map.mp here
      exact ⟨v, holds, inside⟩
    · exact ih below

theorem conforms_iff {P : Field → Codec → Value → Prop} {items : List (Field × Value)} :
    Conforms P items ↔ ∀ entry ∈ items, entry.1.Item P entry.2 := by
  constructor
  · intro conforms
    induction conforms with
    | nil => simp
    | simple isSimple holds _ ih => exact List.forall_mem_cons.mpr ⟨.inl ⟨_, isSimple, holds⟩, ih⟩
    | record nested shaped inside _ _ ih =>
      exact List.forall_mem_cons.mpr ⟨.inr ⟨_, nested, _, rfl, shaped, inside⟩, ih⟩
  · intro each
    induction items with
    | nil => exact .nil
    | cons entry items ih =>
      obtain ⟨here, below⟩ := List.forall_mem_cons.mp each
      obtain ⟨f, v⟩ := entry
      rcases here with ⟨codec, isSimple, holds⟩ | ⟨inner, nested, values, isRecord, shaped, inside⟩
      · exact .simple isSimple holds (ih below)
      · subst isRecord
        exact .record nested shaped inside (ih below)

theorem conforms_cons {P : Field → Codec → Value → Prop} {entry : Field × Value}
    {items : List (Field × Value)} :
    Conforms P (entry :: items) ↔ entry.1.Item P entry.2 ∧ Conforms P items := by
  rw [conforms_iff, List.forall_mem_cons, ← conforms_iff]

namespace Field.Item

variable {P : Field → Codec → Value → Prop} {f : Field} {v : Value}

theorem of_simple (item : f.Item P v) {codec : Codec} (simple : f.codec? = some codec) :
    P f codec v := by
  rcases item with ⟨codec', simple', holds⟩ | ⟨inner, nested, _⟩
  · obtain rfl := Option.some.inj (simple.symm.trans simple')
    exact holds
  · exact absurd nested (Field.not_nested_of_simple simple)

theorem of_nested (item : f.Item P v) {inner : RecordType} (nested : f.type? = some inner) :
    inner.Holds P v := by
  rcases item with ⟨codec, simple, _⟩ | ⟨inner', nested', holds⟩
  · exact absurd nested (Field.not_nested_of_simple simple)
  · obtain rfl := Option.some.inj (nested.symm.trans nested')
    exact holds

end Field.Item

theorem Conforms.simple_items {P : Field → Codec → Value → Prop} {items : List (Field × Value)}
    (conforms : Conforms P items) :
    ∀ entry ∈ items, ∀ codec, entry.1.codec? = some codec → P entry.1 codec entry.2 :=
  fun entry member _ isSimple => (conforms_iff.mp conforms entry member).of_simple isSimple

theorem Conforms.imp {P Q : Field → Codec → Value → Prop} {items : List (Field × Value)}
    (conforms : Conforms P items) (weaken : ∀ f codec item, P f codec item → Q f codec item) :
    Conforms Q items := by
  induction conforms with
  | nil => exact .nil
  | simple isSimple holds _ ih => exact .simple isSimple (weaken _ _ _ holds) ih
  | record nested shaped _ _ ihInside ihRest => exact .record nested shaped ihInside ihRest

theorem Conforms.and {P Q : Field → Codec → Value → Prop} {items : List (Field × Value)}
    (first : Conforms P items) (second : Conforms Q items) :
    Conforms (fun f codec v => P f codec v ∧ Q f codec v) items := by
  induction first with
  | nil => exact .nil
  | simple isSimple holds _ ih =>
    obtain ⟨item, below⟩ := conforms_cons.mp second
    exact .simple isSimple ⟨holds, item.of_simple isSimple⟩ (ih below)
  | record nested shaped _ _ ihInside ihRest =>
    obtain ⟨item, below⟩ := conforms_cons.mp second
    obtain ⟨values, same, _, inside⟩ := item.of_nested nested
    obtain rfl := (Value.record.inj same).2
    exact .record nested shaped (ihInside inside) (ihRest below)

namespace RecordType.Holds

variable {P Q : Field → Codec → Value → Prop} {type : RecordType} {v : Value}

theorem imp (holds : type.Holds P v)
    (weaken : ∀ f codec item, P f codec item → Q f codec item) : type.Holds Q v := by
  obtain ⟨values, rfl, shaped, conforms⟩ := holds
  exact ⟨values, rfl, shaped, conforms.imp weaken⟩

theorem and (first : type.Holds P v) (second : type.Holds Q v) :
    type.Holds (fun f codec item => P f codec item ∧ Q f codec item) v := by
  obtain ⟨values, rfl, shaped, conforms⟩ := first
  obtain ⟨values', same, _, conforms'⟩ := second
  obtain rfl := (Value.record.inj same).2
  exact ⟨values, rfl, shaped, conforms.and conforms'⟩

end RecordType.Holds

end XmlRecords
