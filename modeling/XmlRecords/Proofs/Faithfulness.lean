import XmlRecords.Proofs.Resolution

/-!
What binding a loaded schema gives: one record type for each complex type, bound after the types that
its elements refer to, with the record types of those very types inside it.
-/

set_option autoImplicit false
set_option relaxedAutoImplicit false

namespace XmlRecords

open Schema

variable {s : Schema} {enumerations : List (Label × Enumeration)}
  {records : List (Label × RecordType)}

def Schema.Enumerated.bound (e : Enumerated) : Enumeration :=
  ⟨e.className, Enumeration.entriesOf e.values⟩

namespace BoundSchema

/-! ### Fields of attributes and elements -/

/-- A field is that of an attribute, with its default read. -/
inductive OfAttribute (s : Schema) (enumerations : List (Label × Enumeration))
    (a : Schema.Attribute) : Field → Prop
  | mk {codec : Codec} {default : Value} {name : String} : a.name = .text name →
      codecOf (enumerationNamed? enumerations) a.type s.typeName = .ok codec →
      (a.default = none ∧ default = .absent ∨
        ∃ text, a.default = some text ∧ codec.read text = .ok default) →
      OfAttribute s enumerations a
        (.simple ⟨Identifier.field name, name, true, a.occurrence⟩ codec default)

/-- A field is that of an element: it has a codec, or the record type that the complex type of the
element was bound to. -/
inductive OfElement (s : Schema) (enumerations : List (Label × Enumeration))
    (bindings : List (ComplexType × RecordType)) (e : Schema.Element) : Field → Prop
  | simple {codec : Codec} {name : String} : (∀ id, e.type ≠ .complex id) → e.name = .text name →
      codecOf (enumerationNamed? enumerations) e.type s.typeName = .ok codec →
      OfElement s enumerations bindings e
        (.simple ⟨Identifier.field name, name, false, e.occurrence⟩ codec .absent)
  | nested {id : TypeId} {u : ComplexType} {inner : RecordType} {name : String} :
      e.type = .complex id → s.type? id = some u → (u, inner) ∈ bindings → e.name = .text name →
      OfElement s enumerations bindings e
        (.nested ⟨Identifier.field name, name, false, e.occurrence⟩ inner .absent)

/-- A record type is that of a complex type: it has a field for each attribute and then for each
element, in order. -/
def Describes (s : Schema) (enumerations : List (Label × Enumeration))
    (bindings : List (ComplexType × RecordType)) (t : ComplexType) (type : RecordType) : Prop :=
  ∃ name attributes elements, t.qualifiedName = .text name ∧
    type = .mk (Identifier.recordClass name) name (attributes ++ elements) ∧
    List.Forall₂ (OfAttribute s enumerations) t.attributes attributes ∧
    List.Forall₂ (OfElement s enumerations bindings) t.elements elements

/-- Complex types with their record types, each in terms of those before it. -/
inductive Built (s : Schema) (enumerations : List (Label × Enumeration)) :
    List (ComplexType × RecordType) → Prop
  | nil : Built s enumerations []
  | snoc {bindings : List (ComplexType × RecordType)} {t : ComplexType} {type : RecordType} :
      Built s enumerations bindings → Describes s enumerations bindings t type →
      Built s enumerations (bindings ++ [(t, type)])

def entries (bindings : List (ComplexType × RecordType)) : List (Label × RecordType) :=
  bindings.map fun binding => (binding.1.qualifiedName, binding.2)

/-- A bound schema gives each declared type a record type of its own, and its names lead back to its
types and enumerations. -/
structure Faithful (s : Schema) (b : BoundSchema) : Prop where
  records : ∃ bindings, Built s b.enumerations bindings ∧
    (bindings.map (·.1)).Perm s.declared ∧ b.records = entries bindings
  names : (b.records.map (·.1)).Nodup
  ids : (s.declared.map (·.id)).Nodup
  enumerationNames : (s.enumerations.map (·.name)).Nodup
  types : ∀ t ∈ s.declared, s.typeNamed? t.qualifiedName = some t
  enumerations : ∀ e ∈ s.enumerations, s.enumeratedNamed? e.name = some e

theorem attributeField_eq_ok_iff {a : Schema.Attribute} {f : Field} :
    attributeField s enumerations a = .ok f ↔ OfAttribute s enumerations a f := by
  unfold attributeField
  constructor
  · intro bound
    obtain ⟨codec, hasCodec, bound⟩ := bind_eq_ok_iff.mp bound
    cases given : a.default with
    | none =>
      simp only [given, bind_eq_ok_iff, pure, Except.pure, Except.ok.injEq] at bound
      obtain ⟨_, rfl, name, isName, rfl⟩ := bound
      exact .mk (textOf_eq_ok_iff.mp isName) hasCodec (.inl ⟨given, rfl⟩)
    | some text =>
      simp only [given, bind_eq_ok_iff, pure, Except.pure, Except.ok.injEq, ofCodec,
        mapError_eq_ok_iff] at bound
      obtain ⟨default, read, name, isName, rfl⟩ := bound
      exact .mk (textOf_eq_ok_iff.mp isName) hasCodec (.inr ⟨text, given, read⟩)
  · rintro ⟨isName, hasCodec, ⟨given, rfl⟩ | ⟨text, given, read⟩⟩
    · rw [hasCodec, given, isName]
      rfl
    · refine bind_eq_ok_iff.mpr ⟨_, hasCodec, ?_⟩
      rw [given, isName]
      exact bind_eq_ok_iff.mpr ⟨_, by rw [ofCodec, read]; rfl, rfl⟩

theorem eq_of_qualifiedName (checked : s.Checked) {t u : ComplexType} (ht : t ∈ s.declared)
    (hu : u ∈ s.declared) (same : t.qualifiedName = u.qualifiedName) : t = u :=
  List.inj_on_of_nodup_map checked.typeNames ht hu same

theorem mem_of_recordNamed?_entries {bindings : List (ComplexType × RecordType)} {u : ComplexType}
    {inner : RecordType} (checked : s.Checked) (declared : ∀ t ∈ bindings.map (·.1), t ∈ s.declared)
    (member : u ∈ s.declared) (found : recordNamed? (entries bindings) u.qualifiedName = some inner) :
    (u, inner) ∈ bindings := by
  obtain ⟨name, isName⟩ := (checked.types u member).name
  unfold recordNamed? at found
  obtain ⟨entry, first, rfl⟩ := Option.map_eq_some_iff.mp found
  obtain ⟨⟨t, type⟩, inside, rfl⟩ :=
    List.mem_map.mp (List.mem_reverse.mp (List.mem_of_find?_eq_some first))
  have same := List.find?_some first
  rw [isName, same_text_iff, ← isName] at same
  obtain rfl := eq_of_qualifiedName checked (declared t (List.mem_map_of_mem inside)) member same
  exact inside

theorem ofElement_of_elementField {bindings : List (ComplexType × RecordType)} {owner : Label}
    {e : Schema.Element} {f : Field} (closed : s.Closed) (checked : s.Checked)
    (declared : ∀ t ∈ bindings.map (·.1), t ∈ s.declared)
    (among : e.type.Among (s.declared.map (·.id)) s.enumerations)
    (bound : elementField s enumerations (entries bindings) owner e = .ok f) :
    OfElement s enumerations bindings e f := by
  by_cases isComplex : ∃ id, e.type = .complex id
  · obtain ⟨id, type⟩ := isComplex
    rw [type] at among
    obtain ⟨u, member, rfl⟩ := List.mem_map.mp among
    have known := closed.type? member
    rw [elementField_of_complex type, known] at bound
    simp only [Option.map_some, Option.getD_some] at bound
    split at bound
    · rename_i inner found
      simp only [bind_eq_ok_iff, pure, Except.pure, Except.ok.injEq] at bound
      obtain ⟨name, isName, rfl⟩ := bound
      exact .nested type known (mem_of_recordNamed?_entries checked declared member found)
        (textOf_eq_ok_iff.mp isName)
    · cases bound
  · rw [elementField_of_simple isComplex] at bound
    simp only [bind_eq_ok_iff, pure, Except.pure, Except.ok.injEq] at bound
    obtain ⟨codec, hasCodec, name, isName, rfl⟩ := bound
    exact .simple (fun id type => isComplex ⟨id, type⟩) (textOf_eq_ok_iff.mp isName) hasCodec

theorem describes_of_bindType {bindings : List (ComplexType × RecordType)} {t : ComplexType}
    {type : RecordType} (closed : s.Closed) (checked : s.Checked)
    (declared : ∀ t ∈ bindings.map (·.1), t ∈ s.declared) (member : t ∈ s.declared)
    (bound : bindType s enumerations (entries bindings) t = .ok type) :
    Describes s enumerations bindings t type := by
  unfold bindType at bound
  simp only [bind_eq_ok_iff, mapM_eq_ok_iff] at bound
  obtain ⟨attributes, ofAttributes, elements, ofElements, name, isName, built⟩ := bound
  refine ⟨name, attributes, elements, textOf_eq_ok_iff.mp isName, (fields_of_build built).1, ?_, ?_⟩
  · exact ofAttributes.imp fun _ _ => attributeField_eq_ok_iff.mp
  · have within := (closed.types t member).elements
    exact forall₂_imp_mem ofElements fun e inside f =>
      ofElement_of_elementField closed checked declared (within e inside)

/-! ### Binding in turn -/

theorem putRecord_eq_append {name : Label} {type : RecordType}
    (apart : ∀ entry ∈ records, ¬ entry.1.same name = true) :
    putRecord name type records = records ++ [(name, type)] := by
  induction records with
  | nil => rfl
  | cons entry records ih =>
    rw [List.forall_mem_cons] at apart
    rw [putRecord, if_neg apart.1, ih apart.2, List.cons_append]

/-- Binding has dealt with some types and has others before it, all in an order that puts types after
those they refer to. -/
structure Progress (s : Schema) (enumerations : List (Label × Enumeration))
    (done : List (ComplexType × RecordType)) (types : List ComplexType) : Prop where
  built : Built s enumerations done
  sorted : s.Ordered ((done.map (·.1) ++ types).map (·.id))
  declared : ∀ t ∈ done.map (·.1) ++ types, t ∈ s.declared

namespace Progress

variable {done : List (ComplexType × RecordType)} {t : ComplexType} {types : List ComplexType}
  {type : RecordType}

theorem done_declared (progress : Progress s enumerations done types) :
    ∀ t ∈ done.map (·.1), t ∈ s.declared :=
  fun t member => progress.declared t (List.mem_append_left types member)

theorem next_declared (progress : Progress s enumerations done (t :: types)) : t ∈ s.declared :=
  progress.declared t (List.mem_append_right _ List.mem_cons_self)

/-- The next type gets an entry of its own, after those before it. -/
theorem step (closed : s.Closed) (checked : s.Checked)
    (progress : Progress s enumerations done (t :: types))
    (bound : bindType s enumerations (entries done) t = .ok type) :
    Progress s enumerations (done ++ [(t, type)]) types ∧
      putRecord t.qualifiedName type (entries done) = entries (done ++ [(t, type)]) := by
  have describes := describes_of_bindType closed checked progress.done_declared
    progress.next_declared bound
  have shifted : (done ++ [(t, type)]).map (·.1) ++ types = done.map (·.1) ++ t :: types := by
    simp
  refine ⟨⟨.snoc progress.built describes, ?_, ?_⟩, ?_⟩
  · rw [shifted]
    exact progress.sorted
  · rw [shifted]
    exact progress.declared
  · obtain ⟨name, isName⟩ := (checked.types t progress.next_declared).name
    have apart : ∀ entry ∈ entries done, ¬ entry.1.same t.qualifiedName = true := by
      intro entry member
      obtain ⟨⟨u, inner⟩, inside, rfl⟩ := List.mem_map.mp member
      rw [isName, same_text_iff, ← isName]
      intro same
      have earlier : u ∈ done.map (·.1) := List.mem_map_of_mem inside
      obtain rfl := eq_of_qualifiedName checked (progress.done_declared u earlier)
        progress.next_declared same
      -- the type would stand twice in the order
      have distinct := progress.sorted.nodup.of_map _
      exact (List.nodup_append.mp distinct).2.2 u earlier u List.mem_cons_self rfl
    rw [putRecord_eq_append apart, entries, entries, List.map_append, List.map_singleton]

end Progress

theorem built_of_bindTypes {done : List (ComplexType × RecordType)} {types : List ComplexType}
    {results : List (Label × RecordType)} (closed : s.Closed) (checked : s.Checked)
    (progress : Progress s enumerations done types)
    (bound : bindTypes s enumerations (entries done) types = .ok results) :
    ∃ bindings, Built s enumerations bindings ∧
      bindings.map (·.1) = done.map (·.1) ++ types ∧ results = entries bindings := by
  induction types generalizing done with
  | nil =>
    rw [bindTypes] at bound
    obtain rfl := Except.ok.inj bound
    exact ⟨done, progress.built, by simp, rfl⟩
  | cons t types ih =>
    rw [bindTypes] at bound
    obtain ⟨type, boundType, bound⟩ := bind_eq_ok_iff.mp bound
    obtain ⟨onward, isEntry⟩ := progress.step closed checked boundType
    rw [isEntry] at bound
    obtain ⟨bindings, built, covers, isResult⟩ := ih onward bound
    exact ⟨bindings, built, by simpa using covers, isResult⟩

/-- The types in the order of binding: each declared type once, after those it refers to. -/
theorem perm_of_dependencyOrder {types : List ComplexType} (closed : s.Closed)
    (ordered : s.dependencyOrder = .ok types) :
    types.Perm s.declared ∧ s.Ordered (types.map (·.id)) := by
  obtain ⟨ids, walked, rfl⟩ := map_eq_ok_iff.mp ordered
  have sorted := (walk_of_dependencyIds walked).sorted
  have known : ∀ id ∈ ids, id ∈ s.declared.map (·.id) := by
    intro id member
    obtain ⟨t, declared, leads⟩ := (mem_dependencyIds_iff walked).mp member
    exact closed.mem_of_leads (List.mem_map_of_mem declared) leads
  have all : ∀ id ∈ s.declared.map (·.id), id ∈ ids := by
    intro id member
    obtain ⟨t, declared, rfl⟩ := List.mem_map.mp member
    exact (mem_dependencyIds_iff walked).mpr ⟨t, declared, .refl⟩
  have perm : ids.Perm (s.declared.map (·.id)) :=
    (List.perm_ext_iff_of_nodup sorted.nodup closed.ids).mpr fun id => ⟨known id, all id⟩
  have back : (s.declared.map (·.id)).filterMap s.type? = s.declared := by
    rw [List.filterMap_map]
    refine (List.filterMap_congr fun t member => closed.type? member).trans ?_
    exact List.filterMap_some
  constructor
  · rw [← back]
    exact perm.filterMap _
  · have numbers : (ids.filterMap s.type?).map (·.id) = ids := by
      rw [List.map_filterMap]
      refine (List.filterMap_congr fun id member => ?_).trans List.filterMap_some
      obtain ⟨t, declared, rfl⟩ := List.mem_map.mp (known id member)
      rw [closed.type? declared, Option.map_some]
    rw [numbers]
    exact sorted

/-! ### Enumerations by name -/

theorem entry_of_bindEnumeration {e : Enumerated} {entry : Label × Enumeration}
    (bound : bindEnumeration e = .ok entry) : entry = (e.name, e.bound) := by
  unfold bindEnumeration at bound
  obtain ⟨name, isText, bound⟩ := bind_eq_ok_iff.mp bound
  split at bound
  · rename_i enumeration isEnumeration
    unfold Enumeration.ofValues at isEnumeration
    simp only at isEnumeration
    split at isEnumeration
    · cases isEnumeration
    · obtain rfl := Except.ok.inj isEnumeration
      obtain rfl := Except.ok.inj bound
      rw [Enumerated.bound, Enumerated.className, textOf_eq_ok_iff.mp isText, Json.shown]
  · cases bound

theorem enumerationNamed?_eq (bound : s.enumerations.mapM bindEnumeration = .ok enumerations)
    (name : Label) :
    enumerationNamed? enumerations name = (s.enumeratedNamed? name).map Enumerated.bound := by
  unfold enumerationNamed? Schema.enumeratedNamed?
  rw [mapM_eq_ok_iff] at bound
  generalize s.enumerations = es at bound ⊢
  induction bound with
  | nil => rfl
  | @cons e entry es entries here _ ih =>
    rw [entry_of_bindEnumeration here, List.find?_cons, List.find?_cons]
    cases e.name.same name with
    | true => rfl
    | false => exact ih

/-! ### Problems -/

def Unproblematic {α : Type} (result : Except Fault α) : Prop :=
  ∀ problem, result ≠ .error (.problem problem)

namespace Unproblematic

variable {α β : Type} {result : Except Fault α}

theorem ok (a : α) : Unproblematic (.ok a) := by
  intro problem same
  cases same

theorem bind {next : α → Except Fault β} (first : Unproblematic result)
    (second : ∀ a, result = .ok a → Unproblematic (next a)) : Unproblematic (result >>= next) := by
  cases result with
  | error fault =>
    rintro problem same
    exact first problem (congrArg Except.error (Except.error.inj same))
  | ok a => exact second a rfl

theorem mapM {f : α → Except Fault β} {xs : List α} (each : ∀ x ∈ xs, Unproblematic (f x)) :
    Unproblematic (xs.mapM f) := by
  intro problem same
  obtain ⟨x, member, refused⟩ := exists_of_mapM_eq_error same
  exact each x member problem refused

theorem ofCodec (result : Except CodecFault α) : Unproblematic (ofCodec result) := by
  cases result with
  | error fault => rintro problem ⟨⟩
  | ok a => exact .ok a

theorem textOf (label : Label) : Unproblematic (textOf label) := by
  cases label <;> rintro problem ⟨⟩

end Unproblematic

theorem exists_codecOf {type : DeclaredType} {ids : List TypeId} (checked : s.Checked)
    (bound : s.enumerations.mapM bindEnumeration = .ok enumerations) (simple : type.IsSimple)
    (among : type.Among ids s.enumerations) :
    ∃ codec, codecOf (enumerationNamed? enumerations) type s.typeName = .ok codec := by
  have single {type : DeclaredType} (single : type.IsSingle)
      (among : type.Among ids s.enumerations) :
      ∃ codec, codecOf (enumerationNamed? enumerations) type s.typeName = .ok codec := by
    cases type with
    | primitive p => exact ⟨p.codec, rfl⟩
    | enumerated e =>
      refine ⟨.enumeration e.bound, ?_⟩
      rw [codecOf, enumerationNamed?_eq bound, checked.enumeratedNamed? among, Option.map_some]
    | list item => exact single.elim
    | complex id => exact single.elim
  rcases simple with isSingle | ⟨item, rfl, isSingle⟩
  · exact single isSingle among
  · obtain ⟨codec, found⟩ := single isSingle among
    exact ⟨.list codec, by rw [codecOf, found, Except.map]⟩

theorem unproblematic_attributeField {a : Schema.Attribute}
    (found : ∃ codec, codecOf (enumerationNamed? enumerations) a.type s.typeName = .ok codec) :
    Unproblematic (attributeField s enumerations a) := by
  obtain ⟨codec, hasCodec⟩ := found
  unfold attributeField
  rw [hasCodec]
  refine .bind (.ok codec) fun codec _ => ?_
  cases a.default with
  | none =>
    exact .bind (Unproblematic.ok Value.absent) fun default _ =>
      .bind (.textOf a.name) fun name _ => .ok _
  | some text =>
    exact .bind (.ofCodec (codec.read text)) fun default _ =>
      .bind (.textOf a.name) fun name _ => .ok _

theorem unproblematic_elementField {owner : Label} {e : Schema.Element}
    (found : (¬ ∃ id, e.type = .complex id) →
      ∃ codec, codecOf (enumerationNamed? enumerations) e.type s.typeName = .ok codec)
    (known : ∀ id, e.type = .complex id → ∃ u inner, s.type? id = some u ∧
      recordNamed? records u.qualifiedName = some inner) :
    Unproblematic (elementField s enumerations records owner e) := by
  by_cases isComplex : ∃ id, e.type = .complex id
  · obtain ⟨id, type⟩ := isComplex
    obtain ⟨u, inner, isType, isRecord⟩ := known id type
    rw [elementField_of_complex type, isType]
    simp only [Option.map_some, Option.getD_some, isRecord]
    exact .bind (.textOf e.name) fun name _ => .ok _
  · obtain ⟨codec, hasCodec⟩ := found isComplex
    rw [elementField_of_simple isComplex, hasCodec]
    exact .bind (.ok codec) fun codec _ => .bind (.textOf e.name) fun name _ => .ok _

theorem unproblematic_build (className name : String) (fields : List Field) :
    Unproblematic (RecordType.build className name fields) := by
  unfold RecordType.build
  simp only
  iterate 4
    split
    · rintro problem ⟨⟩
  exact .ok _

theorem exists_recordNamed? {name : String} {type : RecordType}
    (member : (.text name, type) ∈ records) : ∃ inner, recordNamed? records (.text name) = some inner := by
  have found : (records.reverse.find? (·.1.same (.text name))).isSome = true := by
    rw [List.find?_isSome]
    exact ⟨_, List.mem_reverse.mpr member, same_text_iff.mpr rfl⟩
  obtain ⟨entry, isFound⟩ := Option.isSome_iff_exists.mp found
  exact ⟨entry.2, by rw [recordNamed?, isFound, Option.map_some]⟩

theorem Progress.exists_inner {done : List (ComplexType × RecordType)} {t : ComplexType}
    {types : List ComplexType} {id : TypeId} (closed : s.Closed) (checked : s.Checked)
    (progress : Progress s enumerations done (t :: types)) (reference : id ∈ t.references) :
    ∃ u inner, s.type? id = some u ∧ recordNamed? (entries done) u.qualifiedName = some inner := by
  have sorted := progress.sorted
  rw [List.map_append, List.map_cons] at sorted
  have refers : s.Refers t.id id := ⟨t, closed.type? progress.next_declared, reference⟩
  obtain ⟨u, earlier, rfl⟩ := List.mem_map.mp (sorted.mem_before refers)
  have declared := progress.done_declared u earlier
  obtain ⟨⟨u, type⟩, inside, rfl⟩ := List.mem_map.mp earlier
  obtain ⟨name, isName⟩ := (checked.types u declared).name
  have entry : (.text name, type) ∈ entries done := isName ▸ List.mem_map_of_mem inside
  obtain ⟨inner, found⟩ := exists_recordNamed? entry
  exact ⟨u, inner, closed.type? declared, isName ▸ found⟩

theorem unproblematic_bindType {done : List (ComplexType × RecordType)} {t : ComplexType}
    {types : List ComplexType} (closed : s.Closed) (checked : s.Checked)
    (bound : s.enumerations.mapM bindEnumeration = .ok enumerations) (regular : t.Regular)
    (progress : Progress s enumerations done (t :: types)) :
    Unproblematic (bindType s enumerations (entries done) t) := by
  have within := closed.types t progress.next_declared
  refine .bind (.mapM fun a member => ?_) fun attributes _ => .bind (.mapM fun e member => ?_)
    fun elements _ => .bind (.textOf _) fun name _ => unproblematic_build _ _ _
  · exact unproblematic_attributeField (exists_codecOf checked bound (regular.attributes a member)
      (within.attributes a member))
  · apply unproblematic_elementField
    · intro simple
      rcases regular.elements e member with single | ⟨id, isComplex⟩
      · exact exists_codecOf checked bound (.inl single) (within.elements e member)
      · exact absurd ⟨id, isComplex⟩ simple
    · intro id isComplex
      apply progress.exists_inner closed checked
      exact List.mem_filterMap.mpr ⟨e, member, by rw [isComplex]⟩

theorem unproblematic_bindTypes {done : List (ComplexType × RecordType)} {types : List ComplexType}
    (closed : s.Closed) (checked : s.Checked)
    (bound : s.enumerations.mapM bindEnumeration = .ok enumerations)
    (regular : ∀ t ∈ s.declared, t.Regular) (progress : Progress s enumerations done types) :
    Unproblematic (bindTypes s enumerations (entries done) types) := by
  induction types generalizing done with
  | nil => exact .ok _
  | cons t types ih =>
    rw [bindTypes]
    refine .bind (unproblematic_bindType closed checked bound
      (regular t progress.next_declared) progress) fun type boundType => ?_
    obtain ⟨onward, isEntry⟩ := progress.step closed checked boundType
    rw [isEntry]
    exact ih onward

theorem progress_nil {types : List ComplexType} (closed : s.Closed)
    (ordered : s.dependencyOrder = .ok types) : Progress s enumerations [] types := by
  obtain ⟨perm, sorted⟩ := perm_of_dependencyOrder closed ordered
  exact ⟨.nil, sorted, fun t member => perm.subset member⟩

theorem unproblematic_dependencyOrder (checked : s.Checked) : Unproblematic s.dependencyOrder := by
  obtain ⟨ids, walked⟩ := exists_dependencyIds_iff.mpr checked.acyclic
  rw [dependencyOrder, walked]
  exact .ok _

theorem unproblematic_bindEnumeration (e : Enumerated) : Unproblematic (bindEnumeration e) := by
  refine .bind (.textOf e.name) fun name _ => ?_
  cases Enumeration.ofValues name e.values with
  | error fault => rintro problem ⟨⟩
  | ok bound => exact .ok _

theorem exists_bindings {s : Schema} {b : BoundSchema} (closed : s.Closed) (checked : s.Checked)
    (bound : bind s = .ok b) :
    ∃ bindings, Built s b.enumerations bindings ∧ (bindings.map (·.1)).Perm s.declared ∧
      b.records = entries bindings ∧ (b.records.map (·.1)).Nodup := by
  unfold bind at bound
  simp only [bind_eq_ok_iff, pure, Except.pure, Except.ok.injEq] at bound
  obtain ⟨_, _, enumerations, boundEnumerations, types, ordered, results, boundTypes, rfl⟩ := bound
  obtain ⟨perm, sorted⟩ := perm_of_dependencyOrder closed ordered
  obtain ⟨bindings, built, covers, rfl⟩ :=
    built_of_bindTypes closed checked (progress_nil closed ordered) boundTypes
  have same : (bindings.map (·.1)).Perm s.declared := by
    rw [covers]
    exact perm
  have labels : (entries bindings).map (·.1) = (bindings.map (·.1)).map (·.qualifiedName) := by
    rw [entries, List.map_map, List.map_map]
    rfl
  refine ⟨bindings, built, same, rfl, ?_⟩
  rw [labels]
  exact (same.map _).nodup_iff.mpr checked.typeNames

theorem exists_describes {bindings : List (ComplexType × RecordType)} {t : ComplexType}
    {r : RecordType} (built : Built s enumerations bindings) (member : (t, r) ∈ bindings) :
    ∃ earlier, earlier ⊆ bindings ∧ Describes s enumerations earlier t r := by
  induction built with
  | nil => cases member
  | @snoc earlier u type _ describes ih =>
    rcases List.mem_append.mp member with before | last
    · obtain ⟨first, kept, own⟩ := ih before
      exact ⟨first, fun _ inside => List.mem_append_left _ (kept inside), own⟩
    · obtain ⟨rfl, rfl⟩ := Prod.mk.inj (List.mem_singleton.mp last)
      exact ⟨earlier, List.subset_append_left _ _, describes⟩

theorem recordNamed?_eq_some {records : List (Label × RecordType)} {label : Label} {r : RecordType}
    (names : (records.map (·.1)).Nodup) (member : (label, r) ∈ records) {name : String}
    (isName : label = .text name) : recordNamed? records label = some r := by
  have distinct : (records.reverse.map (·.1)).Nodup := by
    rw [List.map_reverse]
    exact List.nodup_reverse.mpr names
  rw [recordNamed?, isName, find?_same_eq_some distinct (List.mem_reverse.mpr member) isName,
    Option.map_some]

/-- Binding a loaded schema is faithful to it, and finds no problem in it. -/
theorem faithful_of_bind {definition : Json} {source : Label} {s : Schema}
    (loaded : load definition source = .ok s) :
    (∀ b, bind s = .ok b → Faithful s b) ∧ ∀ problem, bind s ≠ .error (.problem problem) := by
  obtain ⟨valid, _⟩ := exists_outline_of_load loaded
  have closed := closed_of_load loaded
  have checked := checked_of_validate valid
  obtain ⟨_, regular⟩ := regular_of_load loaded
  constructor
  · intro b bound
    obtain ⟨bindings, built, same, isRecords, names⟩ := exists_bindings closed checked bound
    exact ⟨⟨bindings, built, same, isRecords⟩, names, closed.ids, checked.enumerationNames,
      fun t => checked.typeNamed?, fun e => checked.enumeratedNamed?⟩
  · show Unproblematic (BoundSchema.bind s)
    unfold BoundSchema.bind
    rw [valid]
    exact .bind (.ok ()) fun _ _ => .bind (.mapM fun e _ => unproblematic_bindEnumeration e)
      fun enumerations bound => .bind (unproblematic_dependencyOrder checked) fun types ordered =>
        .bind (unproblematic_bindTypes closed checked bound regular (progress_nil closed ordered))
          fun results _ => .ok _

theorem faithful_shelf : Schema.load shelfDefinition (.text "shelf") = .ok shelfSchema ∧
    BoundSchema.bind shelfSchema = .ok shelfBound ∧ Faithful shelfSchema shelfBound :=
  ⟨load_shelfDefinition, bind_shelfSchema,
    (faithful_of_bind load_shelfDefinition).1 shelfBound bind_shelfSchema⟩

end BoundSchema

end XmlRecords
