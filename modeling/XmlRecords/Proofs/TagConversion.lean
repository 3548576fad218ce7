import XmlRecords.Proofs.CodecFaults
import XmlRecords.Proofs.Realizability

/-!
The conversions between the tags of an enumeration and their texts. They are inverse to each other for
the declared texts, and every other text gives `UNKNOWN`, unless a tag takes the place of a conversion
or is private to the class, so that it becomes no member.
-/

set_option autoImplicit false
set_option relaxedAutoImplicit false

namespace XmlRecords

open Schema

namespace Enumeration

def declared (values : List String) : List Tag :=
  values.mapIdx fun i value => ⟨Identifier.tag value, i⟩

/-- The tags of an enumeration other than `UNKNOWN` correspond to declared texts one by one. -/
structure Corresponds (e : Enumeration) (values : List String) : Prop where
  tags : e.tags = unknown :: declared values
  toText_injective : ∀ t ∈ declared values, ∀ u ∈ declared values, e.toText t = e.toText u → t = u
  ofText_toText : ∀ t ∈ declared values, ∃ text, e.toText t = .ok text ∧ e.ofText text = .ok t
  ofText_unknown : ∀ text, e.ofText text = .ok unknown ↔ text ∉ values
  toText_ofText : ∀ text ∈ values, ∃ t, e.ofText text = .ok t ∧ e.toText t = .ok text

end Enumeration

/-- No declared text has a tag that takes the place of a conversion or is private to the class. -/
def Schema.Enumerated.Free (e : Enumerated) : Prop :=
  ∀ value ∈ e.values, Identifier.tag value ∉ ["to_string", "from_string", "_string_table"] ∧
    Enumeration.isPrivate e.className (Identifier.tag value) = false

instance (e : Enumerated) : Decidable e.Free := inferInstanceAs (Decidable (∀ _ ∈ _, _))

namespace Enumeration

/-! ### Numbers -/

theorem numbered_of_public {className : String} {n : Int} {values : List String}
    (isPublic : ∀ value ∈ values, isPrivate className (Identifier.tag value) = false) :
    numbered className n (entriesOf values) =
      values.mapIdx fun i value => ⟨Identifier.tag value, n + i⟩ := by
  induction values generalizing n with
  | nil => rfl
  | cons value values ih =>
    obtain ⟨here, below⟩ := List.forall_mem_cons.mp isPublic
    have next : ∀ i : Nat, n + 1 + (i : Int) = n + (i + 1 : Nat) := by omega
    have split : entriesOf (value :: values) = (Identifier.tag value, value) :: entriesOf values := rfl
    rw [split, numbered, here, ih below, List.mapIdx_cons]
    simp [next]

theorem mem_declared_iff {values : List String} {t : Tag} :
    t ∈ declared values ↔
      ∃ (i : Nat) (value : String), values[i]? = some value ∧ t = ⟨Identifier.tag value, i⟩ := by
  rw [declared, List.mem_mapIdx]
  constructor
  · rintro ⟨i, bound, rfl⟩
    exact ⟨i, _, List.getElem?_eq_getElem bound, rfl⟩
  · rintro ⟨i, value, found, rfl⟩
    obtain ⟨bound, rfl⟩ := List.getElem?_eq_some_iff.mp found
    exact ⟨i, bound, rfl⟩

theorem ne_unknown_of_declared {values : List String} {t : Tag} (member : t ∈ declared values) :
    t ≠ unknown := by
  obtain ⟨i, value, _, rfl⟩ := mem_declared_iff.mp member
  intro same
  have number : (i : Int) = -1 := congrArg Tag.number same
  omega

theorem names_declared (values : List String) :
    (declared values).map (·.name) = values.map Identifier.tag := by
  apply List.ext_getElem?
  intro i
  rw [declared, List.getElem?_map, List.getElem?_map, List.getElem?_mapIdx, Option.map_map]
  rfl

/-! ### Conversions -/

theorem mem_entriesOf_iff {values : List String} {entry : String × String} :
    entry ∈ entriesOf values ↔ entry.2 ∈ values ∧ entry.1 = Identifier.tag entry.2 := by
  rw [entriesOf, List.mem_map]
  constructor
  · rintro ⟨value, member, rfl⟩
    exact ⟨member, rfl⟩
  · rintro ⟨member, named⟩
    exact ⟨entry.2, member, by rw [← named]⟩

variable {e : Enumeration} {values : List String}

theorem mem_entries_of_declared (entries : e.entries = entriesOf values) {value : String}
    (isDeclared : value ∈ values) : (Identifier.tag value, value) ∈ e.entries := by
  rw [entries]
  exact mem_entriesOf_iff.mpr ⟨isDeclared, rfl⟩

/-- Every text converts: a declared one to its tag, any other to `UNKNOWN`. -/
theorem ofText_eq (entries : e.entries = entriesOf values) (convertible : e.Convertible)
    (text : String) : e.ofText text =
      .ok (if text ∈ values then (e.tagNamed? (Identifier.tag text)).getD unknown else unknown) := by
  obtain ⟨t, converted⟩ := (@exists_ofText_iff e text).mpr convertible
  rw [converted]
  unfold ofText at converted
  split at converted
  · cases converted
  split at converted
  · cases converted
  split at converted
  · rename_i tag text' found
    have isText : text' = text := by simpa using List.find?_some found
    have member := List.mem_of_find?_eq_some found
    rw [entries, mem_entriesOf_iff] at member
    obtain ⟨isDeclared, named⟩ := member
    subst isText
    rw [if_pos isDeclared, ← named]
    exact converted.symm
  · rename_i absent
    rw [if_neg]
    · exact converted.symm
    · intro isDeclared
      simpa using List.find?_eq_none.mp absent _ (mem_entries_of_declared entries isDeclared)

theorem toText_of_declared (entries : e.entries = entriesOf values) (distinct : e.Distinct)
    (shown : e.hides "to_string" = false) {value : String} (isDeclared : value ∈ values)
    (number : Int) : e.toText ⟨Identifier.tag value, number⟩ = .ok value := by
  have found := @find?_eq_some_of_nodup _ _ Prod.fst (· == Identifier.tag value) _ distinct.tags _
    (mem_entries_of_declared entries isDeclared) (by simp)
  rw [toText, shown, found]
  rfl

theorem tags_of_convertible (entries : e.entries = entriesOf values) (convertible : e.Convertible) :
    e.tags = unknown :: declared values := by
  have isPublic : ∀ value ∈ values, isPrivate e.name (Identifier.tag value) = false :=
    fun value isDeclared => (convertible _ (mem_entries_of_declared entries isDeclared)).2.2
  rw [tags, entries, numbered_of_public isPublic]
  simp [declared]

theorem nodup_names_tags (entries : e.entries = entriesOf values) (distinct : e.Distinct)
    (convertible : e.Convertible) : (e.tags.map (·.name)).Nodup := by
  have firsts : e.entries.map (·.1) = values.map Identifier.tag := by
    rw [entries, entriesOf, List.map_map]
    rfl
  rw [tags_of_convertible entries convertible, List.map_cons, names_declared, ← firsts]
  exact List.nodup_cons.mpr ⟨distinct.unreserved, distinct.tags⟩

theorem converts_of_getElem? (entries : e.entries = entriesOf values) (distinct : e.Distinct)
    (convertible : e.Convertible) (shown : e.hides "to_string" = false) {i : Nat} {value : String}
    (found : values[i]? = some value) : e.toText ⟨Identifier.tag value, i⟩ = .ok value ∧
      e.ofText value = .ok ⟨Identifier.tag value, i⟩ := by
  have isDeclared := List.mem_of_getElem? found
  have member : ⟨Identifier.tag value, i⟩ ∈ e.tags := by
    rw [tags_of_convertible entries convertible]
    exact List.mem_cons_of_mem _ (mem_declared_iff.mpr ⟨i, value, found, rfl⟩)
  have named : e.tagNamed? (Identifier.tag value) = some ⟨Identifier.tag value, i⟩ :=
    @find?_eq_some_of_nodup _ _ Tag.name (· == Identifier.tag value) _
      (nodup_names_tags entries distinct convertible) _ member (by simp)
  refine ⟨toText_of_declared entries distinct shown isDeclared i, ?_⟩
  rw [ofText_eq entries convertible, if_pos isDeclared, named, Option.getD_some]

/-- Where no tag takes the place of a conversion and none is private, tags and declared texts
correspond. -/
theorem corresponds_of_convertible (entries : e.entries = entriesOf values) (distinct : e.Distinct)
    (convertible : e.Convertible) (shown : e.hides "to_string" = false) :
    e.Corresponds values := by
  have converts (i : Nat) (value : String) (found : values[i]? = some value) :=
    converts_of_getElem? entries distinct convertible shown found
  refine ⟨tags_of_convertible entries convertible, ?_, ?_, ?_, ?_⟩
  · intro t first u second same
    obtain ⟨i, value, found, rfl⟩ := mem_declared_iff.mp first
    obtain ⟨j, value', found', rfl⟩ := mem_declared_iff.mp second
    rw [(converts i value found).1, (converts j value' found').1, Except.ok.injEq] at same
    have back := (converts i value found).2
    rw [same, (converts j value' found').2] at back
    exact same ▸ (Except.ok.inj back).symm
  · intro t member
    obtain ⟨i, value, found, rfl⟩ := mem_declared_iff.mp member
    exact ⟨value, converts i value found⟩
  · intro text
    constructor
    · intro isUnknown isDeclared
      obtain ⟨i, found⟩ := List.mem_iff_getElem?.mp isDeclared
      rw [(converts i text found).2] at isUnknown
      exact ne_unknown_of_declared (mem_declared_iff.mpr ⟨i, text, found, rfl⟩)
        (Except.ok.inj isUnknown)
    · intro undeclared
      rw [ofText_eq entries convertible, if_neg undeclared]
  · intro text isDeclared
    obtain ⟨i, found⟩ := List.mem_iff_getElem?.mp isDeclared
    exact ⟨_, (converts i text found).symm⟩

/-- Where tags and declared texts correspond, no tag takes the place of a conversion and none is
private. -/
theorem convertible_of_corresponds (corresponds : e.Corresponds values) (nonempty : values ≠ []) :
    e.Convertible ∧ e.hides "to_string" = false := by
  obtain ⟨text, isDeclared⟩ := List.exists_mem_of_ne_nil values nonempty
  obtain ⟨t, read, written⟩ := corresponds.toText_ofText text isDeclared
  refine ⟨exists_ofText_iff.mp ⟨t, read⟩, ?_⟩
  unfold toText at written
  split at written
  · cases written
  · rename_i shown
    exact Bool.eq_false_iff.mpr shown

/-- The enumeration made of a checked declaration converts its texts and tags into each other, whatever
they are, if and only if none of them takes the place of a conversion or is private to the class. -/
theorem corresponds_iff_free {s : Schema} (valid : s.validate = .ok ()) {declared : Enumerated}
    (member : declared ∈ s.enumerations) {name : String} (named : declared.name = .text name)
    (made : ofValues name declared.values = .ok e) :
    e.Corresponds declared.values ↔ declared.Free := by
  have distinct := BoundSchema.distinct_of_ofValues ((checked_of_validate valid).tags _ member) made
  obtain ⟨className, entries⟩ : e.name = declared.className ∧
      e.entries = entriesOf declared.values := by
    unfold ofValues at made
    simp only at made
    split at made
    · cases made
    · obtain rfl := Except.ok.inj made
      exact ⟨by rw [Enumerated.className, named, Json.shown], rfl⟩
  constructor
  · intro corresponds value isDeclared
    obtain ⟨convertible, shown⟩ :=
      convertible_of_corresponds corresponds (List.ne_nil_of_mem isDeclared)
    obtain ⟨noReading, noTable, isPublic⟩ := convertible _ (mem_entries_of_declared entries isDeclared)
    have noWriting : Identifier.tag value ≠ "to_string" := by
      intro same
      rw [hides, List.any_eq_false] at shown
      exact shown _ (mem_entries_of_declared entries isDeclared) (beq_iff_eq.mpr same)
    exact ⟨by simp [noReading, noTable, noWriting], className ▸ isPublic⟩
  · intro free
    have each : ∀ pair ∈ e.entries, pair.1 ∉ ["to_string", "from_string", "_string_table"] ∧
        isPrivate e.name pair.1 = false := by
      intro pair present
      rw [entries, mem_entriesOf_iff] at present
      rw [present.2, className]
      exact free pair.2 present.1
    refine corresponds_of_convertible entries distinct ?_ ?_
    · intro pair present
      obtain ⟨others, isPublic⟩ := each pair present
      simp only [List.mem_cons, List.not_mem_nil, or_false, not_or] at others
      exact ⟨others.2.1, others.2.2, isPublic⟩
    · rw [hides, List.any_eq_false]
      intro pair present same
      exact (each pair present).1 (by simp [beq_iff_eq.mp same])

theorem corresponds_kind :
    shelfSchema.validate = .ok () ∧ kindDeclared ∈ shelfSchema.enumerations ∧
      ofValues "Kind" kindDeclared.values = .ok kind ∧ kind.Corresponds kindDeclared.values := by
  have valid : shelfSchema.validate = .ok () := rfl
  have member : kindDeclared ∈ shelfSchema.enumerations := by simp [shelfSchema]
  have made : ofValues "Kind" kindDeclared.values = .ok kind := rfl
  have free : kindDeclared.Free := by decide
  exact ⟨valid, member, made, (corresponds_iff_free valid member rfl made).mpr free⟩

/-- A declared text that is private to its class becomes no tag, and no text can be converted. -/
theorem not_corresponds_private :
    Schema.load (modeDefinition "_Mode__x") (.text "sole") = .ok (modeSchema "_Mode__x") ∧
      (modeSchema "_Mode__x").validate = .ok () ∧
      ⟨.text "Mode", ["_Mode__x"]⟩ ∈ (modeSchema "_Mode__x").enumerations ∧
      ∃ e, ofValues "Mode" ["_Mode__x"] = .ok e ∧ e.tags = [unknown] ∧
        e.ofText "_Mode__x" = .error (.unknownTag "_Mode__x") ∧ ¬ e.Corresponds ["_Mode__x"] := by
  refine ⟨rfl, rfl, by simp [modeSchema], _, rfl, rfl, rfl, ?_⟩
  intro corresponds
  obtain ⟨t, read, _⟩ := corresponds.toText_ofText "_Mode__x" (List.mem_singleton.mpr rfl)
  cases read

end Enumeration

end XmlRecords
