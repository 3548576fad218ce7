import XmlRecords.Proofs.Binding
import XmlRecords.Proofs.Items
import XmlRecords.Proofs.Reading
import XmlRecords.Proofs.Resolution
import XmlRecords.Record.Access

/-!
The accessors of records. Those of a class report the fields they are named for if no accessor of one
field takes the name of another field or of an accessor of another, and only then.
-/

set_option autoImplicit false
set_option relaxedAutoImplicit false

namespace XmlRecords

/-- The accessors of a field can be called on a record and report the value that the field holds: a
required field is present, an optional one unless it is absent, a repeated one if it has items. -/
def Slot.Reports (slot : Slot) (className : String) (record v : Value) : Prop :=
  match slot.occurrence with
  | .once =>
    record.call ("has_" ++ slot.name) = .ok (.boolean true) ∧
      record.call ("get_" ++ slot.name) = .ok v
  | .optional =>
    (v = .absent → record.call ("has_" ++ slot.name) = .ok (.boolean false) ∧
      record.call ("get_" ++ slot.name) = .error (.notPresent className slot.name)) ∧
    (v ≠ .absent → record.call ("has_" ++ slot.name) = .ok (.boolean true) ∧
      record.call ("get_" ++ slot.name) = .ok v)
  | .repeated =>
    ∃ items, v = .list items ∧
      record.call ("has_" ++ slot.name) = .ok (.boolean !items.isEmpty) ∧
      record.call ("get_" ++ slot.name) = .ok v ∧
      record.call ("get_first_" ++ slot.name) = .ok (items.head?.getD .absent)

def Value.Answers (record : Value) : Prop :=
  ∃ layout values, record = .record layout values ∧
    List.Forall₂ (fun slot v => slot.Reports layout.name record v) layout.slots values

/-- No accessor of one field has the name of another field or of an accessor of another. -/
def Layout.Apart (layout : Layout) : Prop :=
  ∀ s ∈ layout.slots, ∀ t ∈ layout.slots, s ≠ t →
    ∀ name ∈ s.accessors.map (·.1), name ≠ t.name ∧ name ∉ t.accessors.map (·.1)

instance (layout : Layout) : Decidable layout.Apart :=
  inferInstanceAs (Decidable (∀ s ∈ layout.slots, ∀ t ∈ layout.slots, s ≠ t →
    ∀ name ∈ s.accessors.map (·.1), name ≠ t.name ∧ name ∉ t.accessors.map (·.1)))

/-! ### Names of accessors -/

theorem FieldKey.mem_accessors_iff {key : FieldKey} {name : String} {accessor : Accessor} :
    (name, accessor) ∈ key.accessors ↔
      (accessor = .has ∧ name = "has_" ++ key.name) ∨ (accessor = .get ∧ name = "get_" ++ key.name) ∨
        (accessor = .first ∧ key.occurrence = .repeated ∧ name = "get_first_" ++ key.name) := by
  unfold FieldKey.accessors
  cases occurs : key.occurrence with
  | once => simp [and_comm]
  | optional => simp [and_comm]
  | repeated => simp [and_comm]

theorem has_ne_get (a b : String) : "has_" ++ a ≠ "get_" ++ b := by
  intro same
  simpa using congrArg String.toList same

theorem has_ne_first (a b : String) : "has_" ++ a ≠ "get_first_" ++ b := by
  intro same
  simpa using congrArg String.toList same

theorem get_eq_first_iff {a b : String} : "get_" ++ a = "get_first_" ++ b ↔ a = "first_" ++ b := by
  have split : "get_first_" ++ b = "get_" ++ ("first_" ++ b) := by
    rw [← String.append_assoc]
    rfl
  rw [split, String.append_right_inj]

theorem ne_append_self {a : String} (positive : 0 < a.length) (b : String) : b ≠ a ++ b := by
  intro same
  have lengths := congrArg String.length same
  rw [String.length_append] at lengths
  omega

/-- Accessors of one name are of one kind and of fields of one name, or the first item of a field
meets the value of another. -/
theorem FieldKey.accessors_meet {key key' : FieldKey} {name : String} {a b : Accessor}
    (own : (name, a) ∈ key.accessors) (other : (name, b) ∈ key'.accessors) :
    (a = b ∧ key.name = key'.name) ∨
      (a = .get ∧ b = .first ∧ key'.occurrence = .repeated ∧ key.name = "first_" ++ key'.name) ∨
      (a = .first ∧ b = .get ∧ key.occurrence = .repeated ∧ key'.name = "first_" ++ key.name) := by
  rw [mem_accessors_iff] at own other
  rcases own with ⟨rfl, rfl⟩ | ⟨rfl, rfl⟩ | ⟨rfl, repeated, rfl⟩ <;>
    rcases other with ⟨rfl, same⟩ | ⟨rfl, same⟩ | ⟨rfl, repeated', same⟩
  · exact .inl ⟨rfl, (String.append_right_inj _).mp same⟩
  · exact absurd same (has_ne_get _ _)
  · exact absurd same (has_ne_first _ _)
  · exact absurd same.symm (has_ne_get _ _)
  · exact .inl ⟨rfl, (String.append_right_inj _).mp same⟩
  · exact .inr (.inl ⟨rfl, rfl, repeated', get_eq_first_iff.mp same⟩)
  · exact absurd same.symm (has_ne_first _ _)
  · exact .inr (.inr ⟨rfl, rfl, repeated, get_eq_first_iff.mp same.symm⟩)
  · exact .inl ⟨rfl, (String.append_right_inj _).mp same⟩

theorem FieldKey.accessor_unique {key : FieldKey} {name : String} {a b : Accessor}
    (own : (name, a) ∈ key.accessors) (other : (name, b) ∈ key.accessors) : a = b := by
  rcases accessors_meet own other with ⟨same, _⟩ | ⟨_, _, _, named⟩ | ⟨_, _, _, named⟩
  · exact same
  · exact absurd named (ne_append_self (by decide) _)
  · exact absurd named (ne_append_self (by decide) _)

/-! ### Calls -/

section

variable {layout : Layout} {values : List Value} {slot : Slot} {name : String} {accessor : Accessor}
  {v : Value}

theorem Layout.mem_accessors_iff :
    (name, accessor, slot) ∈ layout.accessors ↔
      slot ∈ layout.slots ∧ (name, accessor) ∈ slot.accessors := by
  simp [Layout.accessors]

theorem Layout.accessor?_eq_some (apart : layout.Apart) (member : slot ∈ layout.slots)
    (offered : (name, accessor) ∈ slot.accessors) :
    layout.accessor? name = some (accessor, slot) := by
  unfold accessor?
  cases found : layout.accessors.reverse.find? (·.1 == name) with
  | none =>
    have here := List.mem_reverse.mpr (mem_accessors_iff.mpr ⟨member, offered⟩)
    simpa using List.find?_eq_none.mp found _ here
  | some entry =>
    obtain ⟨name', accessor', slot'⟩ := entry
    obtain rfl : name' = name := by simpa using List.find?_some found
    obtain ⟨member', offered'⟩ :=
      mem_accessors_iff.mp (List.mem_reverse.mp (List.mem_of_find?_eq_some found))
    by_cases same : slot = slot'
    · subst same
      rw [Option.map_some, FieldKey.accessor_unique offered offered']
    · have named := (apart slot member slot' member' same name' (List.mem_map_of_mem offered)).2
      exact absurd (List.mem_map_of_mem offered') named

theorem Layout.valueOf?_eq_some (distinct : (layout.slots.map (·.name)).Nodup)
    (length : layout.slots.length = values.length) (paired : (slot, v) ∈ layout.slots.zip values) :
    layout.valueOf? values slot.name = some v := by
  have names : ((layout.slots.zip values).map (·.1.name)).Nodup := by
    have mapped := congrArg (List.map (·.name)) (List.map_fst_zip length.le)
    rw [List.map_map] at mapped
    exact mapped ▸ distinct
  have found := @Schema.find?_eq_some_of_nodup _ _ (fun pair : Slot × Value => pair.1.name)
    (· == slot.name) _ names _ paired fun k => by rw [beq_iff_eq]
  rw [valueOf?, found, Option.map_some]

theorem Value.call_eq_access (apart : layout.Apart) (distinct : (layout.slots.map (·.name)).Nodup)
    (length : layout.slots.length = values.length) (paired : (slot, v) ∈ layout.slots.zip values)
    (offered : (name, accessor) ∈ slot.accessors) :
    (Value.record layout values).call name = access layout.name slot accessor v := by
  have member := (List.of_mem_zip paired).1
  have hidden : layout.slots.any (·.name == name) = false := by
    rw [List.any_eq_false]
    intro other among same
    rw [beq_iff_eq] at same
    by_cases own : slot = other
    · rw [← own] at same
      rcases FieldKey.mem_accessors_iff.mp offered with ⟨_, rfl⟩ | ⟨_, rfl⟩ | ⟨_, _, rfl⟩
      · exact ne_append_self (by decide) _ same
      · exact ne_append_self (by decide) _ same
      · exact ne_append_self (by decide) _ same
    · exact (apart slot member other among own name (List.mem_map_of_mem offered)).1 same.symm
  simp only [call, hidden, Bool.false_eq_true, if_false, layout.accessor?_eq_some apart member offered,
    layout.valueOf?_eq_some distinct length paired]

end

/-! ### Reports -/

namespace Slot

variable {slot : Slot} {className : String} {record v : Value}

theorem reports_iff (shaped : slot.occurrence = .repeated → ∃ items, v = .list items) :
    slot.Reports className record v ↔
      ∀ entry ∈ slot.accessors, record.call entry.1 = Value.access className slot entry.2 v := by
  unfold Reports FieldKey.accessors
  cases occurs : slot.occurrence with
  | once => simp [Value.access, occurs]
  | optional =>
    cases v with
    | absent => simp [Value.access, occurs]
    | _ => simp [Value.access, occurs]
  | repeated =>
    obtain ⟨items, rfl⟩ := shaped occurs
    have first : (Value.list items).firstItem = .ok (items.head?.getD .absent) := by
      cases items <;> rfl
    simp [Value.access, occurs, Value.hasItems, first, Except.map]

def Blank (slot : Slot) (v : Value) : Prop :=
  match slot.occurrence with
  | .once => v ≠ .absent
  | .optional => v = .absent
  | .repeated => v = .list []

namespace Blank

theorem list_of_repeated (blank : slot.Blank v) (repeated : slot.occurrence = .repeated) :
    v = .list [] := by
  unfold Blank at blank
  rwa [repeated] at blank

theorem access_ne_wrongKind (blank : slot.Blank v) {entry : String × Accessor}
    (offered : entry ∈ slot.accessors) :
    Value.access className slot entry.2 v ≠ .error .wrongKind := by
  unfold Blank at blank
  unfold FieldKey.accessors at offered
  cases occurs : slot.occurrence with
  | once =>
    simp only [occurs, List.append_nil, List.mem_cons, List.not_mem_nil, or_false] at offered
    rcases offered with rfl | rfl <;> simp [Value.access, occurs]
  | optional =>
    simp only [occurs] at blank
    simp only [occurs, List.append_nil, List.mem_cons, List.not_mem_nil, or_false] at offered
    subst blank
    rcases offered with rfl | rfl <;> simp [Value.access, occurs]
  | repeated =>
    simp only [occurs] at blank
    simp only [occurs, List.cons_append, List.nil_append, List.mem_cons, List.not_mem_nil,
      or_false] at offered
    subst blank
    rcases offered with rfl | rfl | rfl <;>
      simp [Value.access, occurs, Value.hasItems, Value.firstItem, Value.isTruthy, Except.map]

theorem get_ne_first {other : Slot} {w : Value} {className' : String} (blank : slot.Blank v)
    (blank' : other.Blank w) (repeated : other.occurrence = .repeated) :
    Value.access className slot .get v ≠ Value.access className' other .first w := by
  have first : Value.access className' other .first w = .ok .absent := by
    rw [blank'.list_of_repeated repeated]
    rfl
  rw [first]
  unfold Blank at blank
  cases occurs : slot.occurrence with
  | once =>
    simp only [occurs] at blank
    simpa [Value.access, occurs] using blank
  | optional =>
    simp only [occurs] at blank
    simp [Value.access, occurs, blank]
  | repeated =>
    simp only [occurs] at blank
    simp [Value.access, occurs, blank]

end Blank

end Slot

namespace Layout

variable {layout : Layout} {values : List Value}

theorem answers_of_apart (apart : layout.Apart) (distinct : (layout.slots.map (·.name)).Nodup)
    (shaped : List.Forall₂ (fun slot v => slot.occurrence = .repeated → ∃ items, v = .list items)
      layout.slots values) : (Value.record layout values).Answers := by
  obtain ⟨length, shaped⟩ := List.forall₂_iff_zip.mp shaped
  refine ⟨layout, values, rfl, List.forall₂_iff_zip.mpr ⟨length, fun {slot v} paired => ?_⟩⟩
  rw [Slot.reports_iff (shaped paired)]
  exact fun entry offered => Value.call_eq_access apart distinct length paired offered

theorem apart_of_answers (distinct : (layout.slots.map (·.name)).Nodup)
    (blank : List.Forall₂ Slot.Blank layout.slots values)
    (answers : (Value.record layout values).Answers) : layout.Apart := by
  obtain ⟨_, _, same, reports⟩ := answers
  obtain ⟨rfl, rfl⟩ := Value.record.inj same
  obtain ⟨length, blank⟩ := List.forall₂_iff_zip.mp blank
  obtain ⟨_, reports⟩ := List.forall₂_iff_zip.mp reports
  have calls {slot : Slot} {v : Value} (paired : (slot, v) ∈ layout.slots.zip values) :
      ∀ entry ∈ slot.accessors,
        (Value.record layout values).call entry.1 = Value.access layout.name slot entry.2 v :=
    (Slot.reports_iff fun repeated => ⟨[], (blank paired).list_of_repeated repeated⟩).mp
      (reports paired)
  intro s hasS t hasT differ name own
  obtain ⟨entry, offered, rfl⟩ := List.mem_map.mp own
  obtain ⟨v, pairedS⟩ := exists_mem_zip length hasS
  obtain ⟨w, pairedT⟩ := exists_mem_zip length hasT
  have called := calls pairedS entry offered
  constructor
  · intro isField
    have hides : layout.slots.any (·.name == entry.1) = true :=
      List.any_eq_true.mpr ⟨t, hasT, by rw [isField, beq_self_eq_true]⟩
    rw [Value.call, if_pos hides] at called
    exact (blank pairedS).access_ne_wrongKind offered called.symm
  · intro isAccessor
    obtain ⟨entry', offered', sameName⟩ := List.mem_map.mp isAccessor
    have called' := calls pairedT entry' offered'
    rw [sameName, called] at called'
    obtain ⟨name, a⟩ := entry
    obtain ⟨name', b⟩ := entry'
    obtain rfl : name' = name := sameName
    rcases FieldKey.accessors_meet offered offered' with
      ⟨_, named⟩ | ⟨rfl, rfl, repeated, _⟩ | ⟨rfl, rfl, repeated, _⟩
    · exact differ (List.inj_on_of_nodup_map distinct hasS hasT named)
    · exact (blank pairedS).get_ne_first (blank pairedT) repeated called'
    · exact (blank pairedT).get_ne_first (blank pairedS) repeated called'.symm

end Layout

/-! ### Records without content -/

theorem RecordType.exists_values_of_empty {type : RecordType} {v : Value}
    (empty : type.empty = .ok v) :
    ∃ values, v = .record type.layout values ∧
      List.Forall₂ (fun f w => f.initial = .ok w) type.fields values := by
  cases type with
  | mk className name fields =>
    rw [RecordType.empty, emptyValues_eq_mapM] at empty
    obtain ⟨values, given, empty⟩ := bind_eq_ok_iff.mp empty
    obtain ⟨values', checked, made⟩ := bind_eq_ok_iff.mp empty
    obtain ⟨_, rfl⟩ := RecordType.construct_eq_ok_iff.mp made
    have unchanged : values' = values := by
      unfold checkReadable at checked
      split at checked
      · cases checked
      · exact (Except.ok.inj checked).symm
    subst unchanged
    refine ⟨values', rfl, (mapM_eq_ok_iff.mp given).imp fun f w given => ?_⟩
    exact ((f.empty_eq_ok_iff w).mp given).2

theorem Codec.zero_ne_absent (codec : Codec) : codec.zero ≠ .absent := by
  cases codec <;> simp [Codec.zero]

namespace Field

variable {f : Field} {v : Value}

theorem zero_ne_absent (zero : f.zero = .ok v) : v ≠ .absent := by
  cases f with
  | simple key codec default =>
    obtain rfl := Except.ok.inj zero
    exact codec.zero_ne_absent
  | nested key inner default =>
    obtain ⟨values, rfl, _⟩ := RecordType.exists_values_of_empty zero
    exact Value.noConfusion

theorem blank_of_initial (initial : f.initial = .ok v) : f.slot.Blank v := by
  unfold Field.initial FieldKey.initial at initial
  unfold Slot.Blank
  rw [slot_occurrence]
  cases occurs : f.key.occurrence with
  | once =>
    rw [occurs] at initial
    cases given : f.default with
    | absent =>
      rw [given] at initial
      exact zero_ne_absent initial
    | _ =>
      rw [given] at initial
      obtain rfl := Except.ok.inj initial
      exact Value.noConfusion
  | optional =>
    rw [occurs] at initial
    exact (Except.ok.inj initial).symm
  | repeated =>
    rw [occurs] at initial
    exact (Except.ok.inj initial).symm

end Field

namespace BoundSchema

/-- The accessors of every record of a class report their own fields if their names are apart. If
they are not, those of the record without content already do not. -/
theorem answers_iff_apart {s : Schema} {b : BoundSchema} (bound : bind s = .ok b)
    {label : Schema.Label} {type : RecordType} (member : (label, type) ∈ b.records) :
    (type.layout.Apart → ∀ values record, Shaped type.fields values →
      type.construct values = .ok record → record.Answers) ∧
    ∀ record, type.empty = .ok record → (record.Answers ↔ type.layout.Apart) := by
  have distinct : (type.layout.slots.map (·.name)).Nodup := by
    have named := (sound_of_bind bound _ member).fields.distinct
    rwa [RecordType.layout, List.map_map]
  constructor
  · intro apart values record shaped made
    obtain ⟨_, rfl⟩ := RecordType.construct_eq_ok_iff.mp made
    exact Layout.answers_of_apart apart distinct (List.forall₂_map_left_iff.mpr shaped)
  · intro record empty
    obtain ⟨values, rfl, initial⟩ := RecordType.exists_values_of_empty empty
    have blank : List.Forall₂ Slot.Blank type.layout.slots values :=
      List.forall₂_map_left_iff.mpr (initial.imp fun _ _ => Field.blank_of_initial)
    have shaped := blank.imp fun slot v blank repeated =>
      (⟨[], blank.list_of_repeated repeated⟩ : ∃ items, v = .list items)
    exact ⟨Layout.apart_of_answers distinct blank,
      fun apart => Layout.answers_of_apart apart distinct shaped⟩

theorem answers_shelf :
    shelfType.layout.Apart ∧
      (Value.record shelfType.layout [.text "A", .absent, .list [], .text "full"]).Answers := by
  have apart : shelfType.layout.Apart := by decide
  refine ⟨apart, (answers_iff_apart bind_shelfSchema shelfType_mem).1 apart _ _ ?_ rfl⟩
  exact .cons nofun (.cons nofun (.cons (fun _ => ⟨[], rfl⟩) (.cons nofun .nil)))

/-- The definition of queues, which hold items and besides the first of them. -/
def queueDefinition : Json :=
  .object [
    ("name", .text "queue"),
    ("types", .array [.object [
      ("name", .text "Queue"),
      ("elements", .array [
        .object [("name", .text "item"), ("type", .text "string"), ("maxOccurs", .text "unbounded")],
        .object [("name", .text "firstItem"), ("type", .text "string")]])]]),
    ("root", .object [("element", .text "queue"), ("type", .text "Queue")])]

def queueSchema : Schema := {
  name := .text "queue"
  rootElement := .text "queue"
  rootType := 0
  declared := [⟨0, .text "Queue", .text "Queue", none, [],
    [⟨.text "item", .primitive .string, .repeated⟩,
      ⟨.text "firstItem", .primitive .string, .once⟩]⟩]
  undeclared := []
  enumerations := []
  package := .null }

def queueType : RecordType :=
  .mk "Queue" "Queue" [
    .simple ⟨"item", "item", false, .repeated⟩ .text .absent,
    .simple ⟨"first_item", "firstItem", false, .once⟩ .text .absent]

def queueBound : BoundSchema := ⟨queueSchema, [], [(.text "Queue", queueType)]⟩

/-- The first item of a queue is asked for, and its field `first_item` answers. -/
theorem call_first_queue :
    Schema.load queueDefinition (.text "queue") = .ok queueSchema ∧
      bind queueSchema = .ok queueBound ∧ (.text "Queue", queueType) ∈ queueBound.records ∧
      queueType.fromNode (.element ⟨"", "queue", []⟩ [.element ⟨"", "item", []⟩ [.text "a"]]) =
        .ok (.record queueType.layout [.list [.text "a"], .text ""]) ∧
      (Value.record queueType.layout [.list [.text "a"], .text ""]).call "get_first_item" =
        .ok (.text "") ∧
      ¬ (Value.record queueType.layout [.list [.text "a"], .text ""]).Answers := by
  have called : (Value.record queueType.layout [.list [.text "a"], .text ""]).call
      "get_first_item" = .ok (.text "") := by rfl
  refine ⟨rfl, rfl, by simp [queueBound], rfl, called, ?_⟩
  rintro ⟨_, _, same, reports⟩
  obtain ⟨rfl, rfl⟩ := Value.record.inj same
  obtain ⟨items, isList, _, _, first⟩ := (List.forall₂_cons.mp reports).1
  obtain rfl := Value.list.inj isList
  simpa using called.symm.trans first

end BoundSchema

end XmlRecords
