import XmlRecords.Proofs.Resolution

/-!
Two lists of the same declared types, numbered and ordered in different ways. A name stands for the
type of the same qualified name in both, so that a definition is resolved to the same content.
-/

set_option autoImplicit false
set_option relaxedAutoImplicit false

namespace XmlRecords.Schema

/-- A search in two lists finds items of one key, if an item that is sought in one of them has one of
the same key in the other, and no two keys are sought. -/
theorem find?_map_eq {α β γ : Type} {key : α → γ} {key' : β → γ} {p : α → Bool} {q : β → Bool}
    {xs : List α} {ys : List β} (forth : ∀ x ∈ xs, p x = true → ∃ y ∈ ys, q y = true ∧ key x = key' y)
    (back : ∀ y ∈ ys, q y = true → ∃ x ∈ xs, p x = true ∧ key x = key' y)
    (single : ∀ x ∈ xs, ∀ y ∈ xs, p x = true → p y = true → key x = key y) :
    (xs.find? p).map key = (ys.find? q).map key' := by
  cases found : xs.find? p with
  | none =>
    have absent : ys.find? q = none := by
      rw [List.find?_eq_none] at found ⊢
      intro y member sought
      obtain ⟨x, inside, soughtToo, _⟩ := back y member sought
      exact found x inside soughtToo
    rw [absent, Option.map_none, Option.map_none]
  | some x =>
    have member := List.mem_of_find?_eq_some found
    have sought := List.find?_some found
    cases foundToo : ys.find? q with
    | none =>
      obtain ⟨y, inside, soughtToo, _⟩ := forth x member sought
      exact absurd soughtToo (List.find?_eq_none.mp foundToo y inside)
    | some y =>
      obtain ⟨z, inside, soughtToo, same⟩ := back y (List.mem_of_find?_eq_some foundToo)
        (List.find?_some foundToo)
      rw [Option.map_some, Option.map_some, single x member z inside sought soughtToo, same]

theorem text_same_iff {label : Label} {name : String} :
    Json.same (.text name) label = true ↔ label = .text name := by
  cases label with
  | text other => simpa [Json.same] using eq_comm
  | _ => simp [Json.same]

theorem eq_of_texts_same {first second name : Label} (isText : ∃ text, first = .text text)
    (isText' : ∃ text, second = .text text) (stands : first.same name = true)
    (stands' : second.same name = true) : first = second := by
  obtain ⟨m, rfl⟩ := isText
  obtain ⟨n, rfl⟩ := isText'
  rw [text_same_iff] at stands stands'
  exact stands.symm.trans stands'

/-- Scopes that are the types of one name in two lists, or both outside all types. -/
def SameScope (types types' : List ComplexType) (scope scope' : Option TypeId) : Prop :=
  scope = none ∧ scope' = none ∨ ∃ p ∈ types, ∃ p' ∈ types',
    scope = some p.id ∧ scope' = some p'.id ∧ p.qualifiedName = p'.qualifiedName

/-- Two lists of types that agree but for numbers and order. Types nested in one type are told apart
by every name that is sought. -/
structure Alike (types types' : List ComplexType) : Prop where
  ids : (types.map (·.id)).Nodup
  ids' : (types'.map (·.id)).Nodup
  distinct : (types.map (·.qualifiedName)).Nodup
  names : (types.map (·.qualifiedName)).Perm (types'.map (·.qualifiedName))
  alike : ∀ t ∈ types, ∀ t' ∈ types', t.qualifiedName = t'.qualifiedName →
    t.name = t'.name ∧ SameScope types types' t.parent t'.parent
  siblings : ∀ t ∈ types, ∀ u ∈ types, t.parent = u.parent → ∀ name : Label,
    t.name.same name = true → u.name.same name = true → t = u
  texts : ∀ t ∈ types, ∃ name, t.qualifiedName = .text name

namespace Alike

variable {types types' : List ComplexType}

theorem distinct' (alike : Alike types types') : (types'.map (·.qualifiedName)).Nodup :=
  alike.names.nodup_iff.mp alike.distinct

theorem eq_of_id (alike : Alike types types') {t u : ComplexType} (ht : t ∈ types) (hu : u ∈ types)
    (same : t.id = u.id) : t = u := List.inj_on_of_nodup_map alike.ids ht hu same

theorem eq_of_id' (alike : Alike types types') {t u : ComplexType} (ht : t ∈ types')
    (hu : u ∈ types') (same : t.id = u.id) : t = u := List.inj_on_of_nodup_map alike.ids' ht hu same

theorem eq_of_name (alike : Alike types types') {t u : ComplexType} (ht : t ∈ types)
    (hu : u ∈ types) (same : t.qualifiedName = u.qualifiedName) : t = u :=
  List.inj_on_of_nodup_map alike.distinct ht hu same

theorem eq_of_name' (alike : Alike types types') {t u : ComplexType} (ht : t ∈ types')
    (hu : u ∈ types') (same : t.qualifiedName = u.qualifiedName) : t = u :=
  List.inj_on_of_nodup_map alike.distinct' ht hu same

theorem exists_counterpart (alike : Alike types types') {t : ComplexType} (member : t ∈ types) :
    ∃ t' ∈ types', t.qualifiedName = t'.qualifiedName := by
  obtain ⟨t', inside, same⟩ := List.mem_map.mp
    (alike.names.subset (List.mem_map_of_mem (f := (·.qualifiedName)) member))
  exact ⟨t', inside, same.symm⟩

theorem exists_counterpart' (alike : Alike types types') {t' : ComplexType} (member : t' ∈ types') :
    ∃ t ∈ types, t.qualifiedName = t'.qualifiedName := by
  obtain ⟨t, inside, same⟩ := List.mem_map.mp
    (alike.names.symm.subset (List.mem_map_of_mem (f := (·.qualifiedName)) member))
  exact ⟨t, inside, same⟩

theorem find?_id (alike : Alike types types') {t : ComplexType} (member : t ∈ types) :
    types.find? (·.id == t.id) = some t :=
  @find?_eq_some_of_nodup _ _ ComplexType.id (· == t.id) _ alike.ids _ member fun k => by
    rw [beq_iff_eq]

theorem find?_id' (alike : Alike types types') {t : ComplexType} (member : t ∈ types') :
    types'.find? (·.id == t.id) = some t :=
  @find?_eq_some_of_nodup _ _ ComplexType.id (· == t.id) _ alike.ids' _ member fun k => by
    rw [beq_iff_eq]

theorem parent_iff (alike : Alike types types') {t t' p p' : ComplexType} (ht : t ∈ types)
    (ht' : t' ∈ types') (same : t.qualifiedName = t'.qualifiedName) (hp : p ∈ types)
    (hp' : p' ∈ types') (around : p.qualifiedName = p'.qualifiedName) :
    t.parent = some p.id ↔ t'.parent = some p'.id := by
  rcases (alike.alike t ht t' ht' same).2 with ⟨none, none'⟩ | ⟨q, hq, q', hq', is, is', sameName⟩
  · simp [none, none']
  · rw [is, is', Option.some.injEq, Option.some.injEq]
    constructor
    · intro id
      obtain rfl := alike.eq_of_id hq hp id
      rw [alike.eq_of_name' hq' hp' (sameName.symm.trans around)]
    · intro id
      obtain rfl := alike.eq_of_id' hq' hp' id
      rw [alike.eq_of_name hq hp (sameName.trans around.symm)]

theorem parent_none_iff (alike : Alike types types') {t t' : ComplexType} (ht : t ∈ types)
    (ht' : t' ∈ types') (same : t.qualifiedName = t'.qualifiedName) :
    t.parent = none ↔ t'.parent = none := by
  rcases (alike.alike t ht t' ht' same).2 with ⟨none, none'⟩ | ⟨q, hq, q', hq', is, is', sameName⟩
  · simp [none, none']
  · simp [is, is']

/-- What a search for the types of a name at some place finds in both lists has one name. -/
theorem find?_eq (alike : Alike types types') {name : Label} {scope scope' : Option TypeId}
    (place : ∀ t ∈ types, ∀ t' ∈ types', t.qualifiedName = t'.qualifiedName →
      (t.parent = scope ↔ t'.parent = scope')) :
    (types.find? fun t => t.parent == scope && t.name.same name).map (·.qualifiedName) =
      (types'.find? fun t => t.parent == scope' && t.name.same name).map (·.qualifiedName) := by
  apply find?_map_eq
  · intro t member sought
    simp only [Bool.and_eq_true, beq_iff_eq] at sought
    obtain ⟨t', member', same⟩ := alike.exists_counterpart member
    refine ⟨t', member', ?_, same⟩
    simp only [Bool.and_eq_true, beq_iff_eq]
    exact ⟨(place t member t' member' same).mp sought.1,
      (alike.alike t member t' member' same).1 ▸ sought.2⟩
  · intro t' member' sought
    simp only [Bool.and_eq_true, beq_iff_eq] at sought
    obtain ⟨t, member, same⟩ := alike.exists_counterpart' member'
    refine ⟨t, member, ?_, same⟩
    simp only [Bool.and_eq_true, beq_iff_eq]
    exact ⟨(place t member t' member' same).mpr sought.1,
      (alike.alike t member t' member' same).1 ▸ sought.2⟩
  · intro t ht u hu soughtT soughtU
    simp only [Bool.and_eq_true, beq_iff_eq] at soughtT soughtU
    rw [alike.siblings t ht u hu (soughtT.1.trans soughtU.1.symm) name soughtT.2 soughtU.2]

/-- From the innermost scope outward, a name stands for a type of the same name in both lists. -/
theorem findNested_eq (alike : Alike types types') (name : Label) (fuel : Nat)
    {scope scope' : Option TypeId} (place : SameScope types types' scope scope') :
    (findNested types name fuel scope).map (·.qualifiedName) =
      (findNested types' name fuel scope').map (·.qualifiedName) := by
  induction fuel generalizing scope scope' with
  | zero => rfl
  | succ fuel ih =>
    rcases place with ⟨rfl, rfl⟩ | ⟨p, hp, p', hp', rfl, rfl, around⟩
    · rfl
    · have here := @alike.find?_eq _ _ name (some p.id) (some p'.id)
        fun t ht t' ht' same => alike.parent_iff ht ht' same hp hp' around
      rw [findNested, findNested]
      cases found : types.find? fun t => t.parent == some p.id && t.name.same name with
      | some t =>
        rw [found] at here
        cases found' : types'.find? fun t => t.parent == some p'.id && t.name.same name with
        | some t' => simpa [found'] using here
        | none => simp [found'] at here
      | none =>
        rw [found, Option.map_none, eq_comm, Option.map_eq_none_iff] at here
        simp only [here, alike.find?_id hp, alike.find?_id' hp', Option.bind_some]
        exact ih (alike.alike p hp p' hp' around).2

theorem findComplex_eq (alike : Alike types types') (name : Label) {scope scope' : Option TypeId}
    (place : SameScope types types' scope scope') :
    (findComplex types name scope).map (·.qualifiedName) =
      (findComplex types' name scope').map (·.qualifiedName) := by
  have length : types.length = types'.length := by
    simpa using alike.names.length_eq
  have nested := alike.findNested_eq name types.length place
  have top := @alike.find?_eq _ _ name none none fun t ht t' ht' same =>
    alike.parent_none_iff ht ht' same
  have qualified : (types.find? (·.qualifiedName.same name)).map (·.qualifiedName) =
      (types'.find? (·.qualifiedName.same name)).map (·.qualifiedName) := by
    apply find?_map_eq
    · intro t member sought
      obtain ⟨t', member', same⟩ := alike.exists_counterpart member
      exact ⟨t', member', same ▸ sought, same⟩
    · intro t' member' sought
      obtain ⟨t, member, same⟩ := alike.exists_counterpart' member'
      exact ⟨t, member, same ▸ sought, same⟩
    · intro t ht u hu soughtT soughtU
      exact eq_of_texts_same (alike.texts t ht) (alike.texts u hu) soughtT soughtU
  have outermost (t : ComplexType) : t.parent.isNone = (t.parent == none) := by
    cases t.parent <;> rfl
  simp only [findComplex, outermost, ← length]
  cases nestedFound : findNested types name types.length scope with
  | some t =>
    rw [nestedFound, Option.map_some, eq_comm, Option.map_eq_some_iff] at nested
    obtain ⟨t', nestedFound', same⟩ := nested
    rw [nestedFound', Option.map_some, Option.map_some, same]
  | none =>
    rw [nestedFound, Option.map_none, eq_comm, Option.map_eq_none_iff] at nested
    rw [nested]
    cases topFound : types.find? fun t => t.parent == none && t.name.same name with
    | some t =>
      rw [topFound, Option.map_some, eq_comm, Option.map_eq_some_iff] at top
      obtain ⟨t', topFound', same⟩ := top
      rw [topFound', Option.map_some, Option.map_some, same]
    | none =>
      rw [topFound, Option.map_none, eq_comm, Option.map_eq_none_iff] at top
      rw [top]
      exact qualified

end Alike

end XmlRecords.Schema
