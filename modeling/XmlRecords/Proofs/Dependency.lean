import Mathlib.Data.Finset.Card
import Mathlib.Data.List.Perm.Subperm
import Mathlib.Logic.Relation
import XmlRecords.Proofs.Outcomes
import XmlRecords.Schema.Dependency

/-!
The walk over the references among complex types: it gives every type that can be reached after the
types it refers to, and it is refused exactly if some type that can be reached lies on a cycle.
-/

set_option autoImplicit false
set_option relaxedAutoImplicit false

namespace XmlRecords.Schema

open Relation

def Refers (s : Schema) (a b : TypeId) : Prop := ∃ t, s.type? a = some t ∧ b ∈ t.references

def Reached (s : Schema) (id : TypeId) : Prop :=
  ∃ t ∈ s.declared, ReflTransGen s.Refers t.id id

def Acyclic (s : Schema) : Prop := ∀ id, s.Reached id → ¬ TransGen s.Refers id id

/-- Types without repetition, each after the types that it refers to. -/
inductive Ordered (s : Schema) : List TypeId → Prop
  | nil : Ordered s []
  | snoc {ids : List TypeId} {id : TypeId} : Ordered s ids → id ∉ ids →
      (∀ r, s.Refers id r → r ∈ ids) → Ordered s (ids ++ [id])

variable {s : Schema} {active ordered result starts : List TypeId} {id : TypeId} {fuel : Nat}

theorem refers_iff {a b : TypeId} :
    s.Refers a b ↔ b ∈ ((s.type? a).map (·.references)).getD [] := by
  unfold Refers
  cases s.type? a <;> simp

/-! ### Orders -/

namespace Ordered

theorem nodup (h : Ordered s ordered) : ordered.Nodup := by
  induction h with
  | nil => exact List.nodup_nil
  | @snoc ids id _ fresh _ ih =>
    exact ih.append (List.nodup_singleton id) (List.disjoint_singleton.mpr fresh)

theorem mem_of_refers (h : Ordered s ordered) {a b : TypeId} (member : a ∈ ordered)
    (refers : s.Refers a b) : b ∈ ordered := by
  induction h with
  | nil => cases member
  | @snoc ids id _ _ before ih =>
    rcases List.mem_append.mp member with earlier | last
    · exact List.mem_append_left _ (ih earlier)
    · rw [List.mem_singleton.mp last] at refers
      exact List.mem_append_left _ (before b refers)

theorem mem_of_transGen (h : Ordered s ordered) {a b : TypeId} (member : a ∈ ordered)
    (leads : TransGen s.Refers a b) : b ∈ ordered := by
  induction leads with
  | single refers => exact h.mem_of_refers member refers
  | tail _ refers ih => exact h.mem_of_refers ih refers

theorem mem_before {before after : List TypeId} (h : Ordered s (before ++ id :: after)) {r : TypeId}
    (refers : s.Refers id r) : r ∈ before := by
  generalize isList : before ++ id :: after = ids at h
  induction h generalizing after with
  | nil => simp at isList
  | @snoc ids last _ _ first ih =>
    rcases List.eq_nil_or_concat after with rfl | ⟨shorter, final, rfl⟩
    · obtain ⟨rfl, isLast⟩ := List.append_inj' isList rfl
      obtain rfl := List.singleton_inj.mp isLast
      exact first r refers
    · rw [List.concat_eq_append, ← List.cons_append, ← List.append_assoc] at isList
      obtain ⟨same, _⟩ := List.append_inj' isList rfl
      exact ih same

theorem not_cyclic (h : Ordered s ordered) (member : id ∈ ordered) :
    ¬ TransGen s.Refers id id := by
  induction h with
  | nil => cases member
  | @snoc ids last sorted fresh before ih =>
    rcases List.mem_append.mp member with earlier | isLast
    · exact ih earlier
    · obtain rfl := List.mem_singleton.mp isLast
      intro cycle
      obtain ⟨next, refers, back⟩ := TransGen.head'_iff.mp cycle
      have inside := before next refers
      -- what lies before the last type does not lead to it
      rcases reflTransGen_iff_eq_or_transGen.mp back with same | leads
      · exact fresh (same ▸ inside)
      · exact fresh (sorted.mem_of_transGen inside leads)

end Ordered

/-! ### What a walk adds -/

/-- The order that a walk from some types gives: those before are kept, the types are in it, and what
was added can be reached from them and is not on the way to them. -/
structure Walk (s : Schema) (active ordered starts result : List TypeId) : Prop where
  sorted : Ordered s result
  kept : ordered ⊆ result
  visited : starts ⊆ result
  added : ∀ id ∈ result, id ∈ ordered ∨
    id ∉ active ∧ ∃ start ∈ starts, ReflTransGen s.Refers start id

namespace Walk

theorem nil (h : Ordered s ordered) : Walk s active ordered [] ordered :=
  ⟨h, List.Subset.refl ordered, List.nil_subset ordered, fun _ member => .inl member⟩

theorem cons {first : List TypeId} (head : Walk s active ordered [id] first)
    (tail : Walk s active first starts result) : Walk s active ordered (id :: starts) result := by
  refine ⟨tail.sorted, List.Subset.trans head.kept tail.kept, ?_, ?_⟩
  · exact List.cons_subset.mpr ⟨tail.kept (head.visited List.mem_cons_self), tail.visited⟩
  · intro x member
    rcases tail.added x member with earlier | ⟨free, start, among, leads⟩
    · rcases head.added x earlier with before | ⟨free, start, isId, leads⟩
      · exact .inl before
      · obtain rfl := List.mem_singleton.mp isId
        exact .inr ⟨free, start, List.mem_cons_self, leads⟩
    · exact .inr ⟨free, start, List.mem_cons_of_mem id among, leads⟩

theorem enter {references : List TypeId} (refers : ∀ r, s.Refers id r ↔ r ∈ references)
    (absent : id ∉ ordered) (outside : id ∉ active)
    (inner : Walk s (active ++ [id]) ordered references result) :
    Walk s active ordered [id] (result ++ [id]) := by
  have fresh : id ∉ result := by
    intro member
    rcases inner.added id member with before | ⟨free, _⟩
    · exact absent before
    · exact free (List.mem_append_right active List.mem_cons_self)
  refine ⟨.snoc inner.sorted fresh fun r isReference => inner.visited ((refers r).mp isReference),
    ?_, ?_, ?_⟩
  · exact List.Subset.trans inner.kept (List.subset_append_left result [id])
  · exact List.subset_append_right result [id]
  · intro x member
    rcases List.mem_append.mp member with inside | isId
    · rcases inner.added x inside with before | ⟨free, start, isReference, leads⟩
      · exact .inl before
      · have outsideActive : x ∉ active := fun here => free (List.mem_append_left [id] here)
        exact .inr ⟨outsideActive, id, List.mem_cons_self,
          .head ((refers start).mpr isReference) leads⟩
    · obtain rfl := List.mem_singleton.mp isId
      exact .inr ⟨outside, x, List.mem_cons_self, .refl⟩

end Walk

theorem walk_of_foldlM
    (visits : ∀ {ordered result : List TypeId} {id : TypeId}, Ordered s ordered →
      s.visit fuel active ordered id = .ok result → Walk s active ordered [id] result)
    (sorted : Ordered s ordered) (walked : starts.foldlM (s.visit fuel active) ordered = .ok result) :
    Walk s active ordered starts result := by
  induction starts generalizing ordered with
  | nil =>
    obtain rfl := Except.ok.inj walked
    exact .nil sorted
  | cons id starts ih =>
    rw [List.foldlM_cons] at walked
    obtain ⟨first, visited, walked⟩ := bind_eq_ok_iff.mp walked
    have head := visits sorted visited
    exact head.cons (ih head.sorted walked)

theorem walk_of_visit (sorted : Ordered s ordered)
    (visited : s.visit fuel active ordered id = .ok result) : Walk s active ordered [id] result := by
  induction fuel generalizing active ordered result id with
  | zero => cases visited
  | succ fuel ih =>
    rw [visit] at visited
    split at visited
    · rename_i present
      obtain rfl := Except.ok.inj visited
      refine ⟨sorted, List.Subset.refl ordered, ?_, fun _ member => .inl member⟩
      exact List.cons_subset.mpr ⟨by simpa using present, List.nil_subset ordered⟩
    split at visited
    · cases visited
    · rename_i absent outside
      obtain ⟨inner, walked, visited⟩ := bind_eq_ok_iff.mp visited
      obtain rfl := Except.ok.inj visited
      exact .enter (fun r => refers_iff) (by simpa using absent) (by simpa using outside)
        (walk_of_foldlM ih sorted walked)

theorem walk_of_dependencyIds {ids : List TypeId} (walked : s.dependencyIds = .ok ids) :
    Walk s [] [] (s.declared.map (·.id)) ids := walk_of_foldlM walk_of_visit .nil walked

theorem mem_dependencyIds_iff {ids : List TypeId} (walked : s.dependencyIds = .ok ids) :
    id ∈ ids ↔ s.Reached id := by
  have walk := walk_of_dependencyIds walked
  constructor
  · intro member
    rcases walk.added id member with none | ⟨_, start, isDeclared, leads⟩
    · cases none
    · obtain ⟨t, declared, rfl⟩ := List.mem_map.mp isDeclared
      exact ⟨t, declared, leads⟩
  · rintro ⟨t, declared, leads⟩
    have start := walk.visited (List.mem_map_of_mem declared)
    rcases reflTransGen_iff_eq_or_transGen.mp leads with rfl | onward
    · exact start
    · exact walk.sorted.mem_of_transGen start onward

/-! ### When there is an order -/

theorem mem_ids_of_refers {a b : TypeId} (refers : s.Refers a b) :
    a ∈ (s.declared ++ s.undeclared).map (·.id) := by
  obtain ⟨t, found, _⟩ := refers
  have same := List.find?_some found
  exact List.mem_map.mpr ⟨t, List.mem_of_find?_eq_some found, by simpa using same⟩

/-- The fuel is enough: the types on the way are distinct, and each of them is a type of the schema,
as it refers to the next. -/
theorem length_le_of_leads (distinct : active.Nodup)
    (leads : ∀ a ∈ active, TransGen s.Refers a id) :
    active.length ≤ (s.declared ++ s.undeclared).length := by
  have known : active ⊆ (s.declared ++ s.undeclared).map (·.id) := by
    intro a member
    obtain ⟨next, refers, _⟩ := TransGen.head'_iff.mp (leads a member)
    exact mem_ids_of_refers refers
  have bounded := (distinct.subperm known).length_le
  rwa [List.length_map] at bounded

theorem exists_foldlM_eq_ok
    (visits : ∀ ordered, ∀ id ∈ starts, ∃ result, s.visit fuel active ordered id = .ok result)
    (ordered : List TypeId) : ∃ result, starts.foldlM (s.visit fuel active) ordered = .ok result := by
  induction starts generalizing ordered with
  | nil => exact ⟨ordered, rfl⟩
  | cons id starts ih =>
    obtain ⟨first, visited⟩ := visits ordered id List.mem_cons_self
    obtain ⟨result, walked⟩ := ih (fun ordered id member =>
      visits ordered id (List.mem_cons_of_mem _ member)) first
    refine ⟨result, ?_⟩
    rw [List.foldlM_cons]
    exact bind_eq_ok_iff.mpr ⟨first, visited, walked⟩

theorem exists_visit_eq_ok (free : ∀ x, ReflTransGen s.Refers id x → ¬ TransGen s.Refers x x)
    (distinct : active.Nodup) (leads : ∀ a ∈ active, TransGen s.Refers a id)
    (enough : (s.declared ++ s.undeclared).length < active.length + fuel) (ordered : List TypeId) :
    ∃ result, s.visit fuel active ordered id = .ok result := by
  induction fuel generalizing active ordered id with
  | zero =>
    have few := length_le_of_leads distinct leads
    omega
  | succ fuel ih =>
    rw [visit]
    have outside : id ∉ active := fun member => free id .refl (leads id member)
    by_cases present : ordered.contains id = true
    · exact ⟨ordered, if_pos present⟩
    · rw [if_neg present, if_neg (by simpa using outside)]
      have visits : ∀ ordered, ∀ r ∈ ((s.type? id).map (·.references)).getD [],
          ∃ result, s.visit fuel (active ++ [id]) ordered r = .ok result := by
        intro ordered r isReference
        have refers := refers_iff.mpr isReference
        refine ih (fun x onward => free x (.head refers onward)) ?_ ?_ ?_ ordered
        · exact distinct.append (List.nodup_singleton id) (List.disjoint_singleton.mpr outside)
        · intro a member
          rcases List.mem_append.mp member with earlier | isId
          · exact (leads a earlier).tail refers
          · rw [List.mem_singleton.mp isId]
            exact .single refers
        · simp only [List.length_append, List.length_singleton] at enough ⊢
          omega
      obtain ⟨inner, walked⟩ := exists_foldlM_eq_ok visits ordered
      exact ⟨inner ++ [id], bind_eq_ok_iff.mpr ⟨inner, walked, rfl⟩⟩

theorem exists_dependencyIds_iff : (∃ ids, s.dependencyIds = .ok ids) ↔ s.Acyclic := by
  constructor
  · rintro ⟨ids, walked⟩ id reached
    exact (walk_of_dependencyIds walked).sorted.not_cyclic
      ((mem_dependencyIds_iff walked).mpr reached)
  · intro acyclic
    apply exists_foldlM_eq_ok
    intro ordered id isDeclared
    obtain ⟨t, declared, rfl⟩ := List.mem_map.mp isDeclared
    apply exists_visit_eq_ok
    · exact fun x leads => acyclic x ⟨t, declared, leads⟩
    · exact List.nodup_nil
    · intro a none
      cases none
    · rw [List.length_append, List.length_nil]
      omega

theorem exists_of_foldlM_eq_error
    {fault : Fault} (walked : starts.foldlM (s.visit fuel active) ordered = .error fault) :
    ∃ id ∈ starts, ∃ ordered, s.visit fuel active ordered id = .error fault := by
  induction starts generalizing ordered with
  | nil => cases walked
  | cons id starts ih =>
    rw [List.foldlM_cons] at walked
    rcases bind_eq_error_iff.mp walked with refused | ⟨first, _, walked⟩
    · exact ⟨id, List.mem_cons_self, ordered, refused⟩
    · obtain ⟨other, member, visited⟩ := ih walked
      exact ⟨other, List.mem_cons_of_mem id member, visited⟩

theorem problem_of_visit {fault : Fault} (visited : s.visit fuel active ordered id = .error fault) :
    ∃ problem, fault = .problem problem := by
  induction fuel generalizing active ordered id fault with
  | zero => exact ⟨_, (Except.error.inj visited).symm⟩
  | succ fuel ih =>
    rw [visit] at visited
    split at visited
    · cases visited
    split at visited
    · exact ⟨_, (Except.error.inj visited).symm⟩
    · rcases bind_eq_error_iff.mp visited with walked | ⟨inner, _, impossible⟩
      · obtain ⟨_, _, _, visited⟩ := exists_of_foldlM_eq_error walked
        exact ih visited
      · cases impossible

theorem problem_of_dependencyIds {fault : Fault} (walked : s.dependencyIds = .error fault) :
    ∃ problem, fault = .problem problem := by
  obtain ⟨_, _, _, visited⟩ := exists_of_foldlM_eq_error walked
  exact problem_of_visit visited

end XmlRecords.Schema
