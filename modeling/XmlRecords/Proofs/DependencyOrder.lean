import Mathlib.Data.List.Chain
import Mathlib.Data.List.TakeWhile
import XmlRecords.Proofs.Dependency

/-!
The order of complex types as a whole. Either each type that can be reached stands in it once, after
the types it refers to, or there is a cycle, and the problem that is reported names the types on one.
-/

set_option autoImplicit false
set_option relaxedAutoImplicit false

namespace XmlRecords.Schema

open Relation

/-- A walk along references that ends where it starts. -/
structure ClosedWalk (s : Schema) (ids : List TypeId) : Prop where
  steps : ids.IsChain s.Refers
  proper : 2 ≤ ids.length
  closed : ids.head? = ids.getLast?

/-- The types that declared types lead to, each of them once and after the types it refers to. -/
structure Arranged (s : Schema) (types : List ComplexType) : Prop where
  distinct : (types.map (·.id)).Nodup
  members : ∀ t, t ∈ types ↔ s.Reached t.id ∧ s.type? t.id = some t
  before : ∀ earlier t later, types = earlier ++ t :: later →
    ∀ r ∈ t.references, ∀ u, s.type? r = some u → u ∈ earlier

def Names (s : Schema) (id : TypeId) (name : Label) : Prop :=
  ∃ t, s.type? id = some t ∧ t.qualifiedName = name

variable {s : Schema} {active ordered starts : List TypeId} {id : TypeId} {fuel : Nat}
  {fault : Fault}

theorem id_of_type? {t : ComplexType} (found : s.type? id = some t) : t.id = id := by
  simpa using List.find?_some found

/-! ### The order -/

theorem arranged_of_dependencyIds {ids : List TypeId} (walked : s.dependencyIds = .ok ids) :
    s.Arranged (ids.filterMap s.type?) := by
  have sorted := (walk_of_dependencyIds walked).sorted
  constructor
  · -- numbers are kept, those without a type left out
    have kept : ((ids.filterMap s.type?).map (·.id)).Sublist ids := by
      clear walked sorted
      induction ids with
      | nil => exact List.Sublist.refl []
      | cons id ids ih =>
        cases known : s.type? id with
        | none =>
          rw [List.filterMap_cons_none known]
          exact ih.cons id
        | some t =>
          rw [List.filterMap_cons_some known, List.map_cons, id_of_type? known]
          exact ih.cons_cons id
    exact sorted.nodup.sublist kept
  · intro t
    rw [List.mem_filterMap]
    constructor
    · rintro ⟨id, member, found⟩
      have same := id_of_type? found
      subst same
      exact ⟨(mem_dependencyIds_iff walked).mp member, found⟩
    · rintro ⟨reached, found⟩
      exact ⟨t.id, (mem_dependencyIds_iff walked).mpr reached, found⟩
  · intro earlier t later split r reference u found
    obtain ⟨before, after, rfl, isEarlier, isLater⟩ := List.filterMap_eq_append_iff.mp split
    obtain ⟨skipped, id, rest, rfl, none, known, _⟩ := List.filterMap_eq_cons_iff.mp isLater
    rw [← List.append_assoc] at sorted
    have member := sorted.mem_before ⟨t, known, reference⟩
    rw [← isEarlier]
    rcases List.mem_append.mp member with inBefore | inSkipped
    · exact List.mem_filterMap.mpr ⟨r, inBefore, found⟩
    · rw [none r inSkipped] at found
      cases found

/-! ### The cycle -/

theorem transGen_of_chain (steps : (active ++ [id]).IsChain s.Refers) :
    ∀ a ∈ active, TransGen s.Refers a id := by
  have leads := List.isChain_iff_pairwise.mp (steps.imp fun _ _ => TransGen.single)
  intro a member
  exact (List.pairwise_append.mp leads).2.2 a member id List.mem_cons_self

theorem closedWalk_of_mem (steps : (active ++ [id]).IsChain s.Refers) (entered : id ∈ active) :
    s.ClosedWalk (active.dropWhile (· != id) ++ [id]) := by
  obtain ⟨rest, fromEntry⟩ : ∃ rest, active.dropWhile (· != id) = id :: rest := by
    cases remaining : active.dropWhile (· != id) with
    | nil =>
      have passed := List.dropWhile_eq_nil_iff.mp remaining id entered
      exact absurd passed (by simp)
    | cons a rest =>
      have stops := List.head_dropWhile_not (· != id) (by rw [remaining]; exact List.cons_ne_nil a rest)
      simp only [remaining, List.head_cons, bne_eq_false_iff_eq] at stops
      exact ⟨rest, by rw [stops]⟩
  constructor
  · exact steps.suffix ⟨active.takeWhile (· != id), by
      rw [← List.append_assoc, List.takeWhile_append_dropWhile]⟩
  · simp [fromEntry]
  · rw [fromEntry, List.getLast?_concat, List.cons_append, List.head?_cons]

theorem ClosedWalk.exists_type {walk : List TypeId} (closed : s.ClosedWalk walk) :
    ∀ id ∈ walk, ∃ t, s.type? id = some t := by
  obtain ⟨steps, proper, closed⟩ := closed
  intro id member
  obtain ⟨before, after, rfl⟩ := List.append_of_mem member
  cases after with
  | cons next after =>
    obtain ⟨t, found, _⟩ := (List.isChain_cons_cons.mp steps.right_of_append).1
    exact ⟨t, found⟩
  | nil =>
    cases before with
    | nil => simp at proper
    | cons first before =>
      rw [List.getLast?_concat, List.cons_append, List.head?_cons, Option.some_inj] at closed
      obtain ⟨next, isNext⟩ : ∃ next, (before ++ [id]).head? = some next :=
        Option.isSome_iff_exists.mp (by simp)
      obtain ⟨t, found, _⟩ := List.IsChain.rel_head? steps isNext
      exact ⟨t, closed ▸ found⟩

theorem exists_closedWalk_of_visit (steps : (active ++ [id]).IsChain s.Refers)
    (distinct : active.Nodup) (reached : ∀ x ∈ active ++ [id], s.Reached x)
    (enough : (s.declared ++ s.undeclared).length < active.length + fuel)
    (visited : s.visit fuel active ordered id = .error fault) :
    ∃ walk, s.ClosedWalk walk ∧ (∀ x ∈ walk, s.Reached x) ∧
      fault = .located (.cycle (walk.map fun i => ((s.type? i).map (·.qualifiedName)).getD .null))
        s.name := by
  induction fuel generalizing active ordered id with
  | zero =>
    have few := length_le_of_leads distinct (transGen_of_chain steps)
    omega
  | succ fuel ih =>
    rw [visit] at visited
    split at visited
    · cases visited
    split at visited
    · rename_i entered
      refine ⟨_, closedWalk_of_mem steps (by simpa using entered), ?_, ?_⟩
      · intro x member
        apply reached x
        rcases List.mem_append.mp member with onward | isId
        · exact List.mem_append_left _ ((List.dropWhile_suffix _).subset onward)
        · exact List.mem_append_right _ isId
      · exact (Except.error.inj visited).symm
    · rename_i outside
      rcases bind_eq_error_iff.mp visited with walked | ⟨inner, _, impossible⟩
      · obtain ⟨r, isReference, ordered, visited⟩ := exists_of_foldlM_eq_error walked
        have refers := refers_iff.mpr isReference
        refine ih ?_ ?_ ?_ ?_ visited
        · refine steps.append (List.isChain_singleton r) fun last isLast next isNext => ?_
          rw [List.getLast?_concat, Option.mem_some_iff] at isLast
          rw [List.head?_singleton, Option.mem_some_iff] at isNext
          rwa [← isLast, ← isNext]
        · have fresh : List.Disjoint active [id] := List.disjoint_singleton.mpr (by simpa using outside)
          exact distinct.append (List.nodup_singleton id) fresh
        · intro x member
          rcases List.mem_append.mp member with earlier | isReference
          · exact reached x earlier
          · rw [List.mem_singleton.mp isReference]
            obtain ⟨t, declared, leads⟩ := reached id (List.mem_append_right active List.mem_cons_self)
            exact ⟨t, declared, leads.tail refers⟩
        · simp only [List.length_append, List.length_singleton] at enough ⊢
          omega
      · cases impossible

theorem exists_closedWalk_of_dependencyIds (walked : s.dependencyIds = .error fault) :
    ∃ walk, s.ClosedWalk walk ∧ (∀ x ∈ walk, s.Reached x) ∧
      fault = .located (.cycle (walk.map fun i => ((s.type? i).map (·.qualifiedName)).getD .null))
        s.name := by
  obtain ⟨id, isDeclared, ordered, visited⟩ := exists_of_foldlM_eq_error walked
  obtain ⟨t, declared, rfl⟩ := List.mem_map.mp isDeclared
  have reached : ∀ x ∈ [] ++ [t.id], s.Reached x := by
    intro x member
    rw [List.nil_append, List.mem_singleton] at member
    exact ⟨t, declared, member ▸ .refl⟩
  have enough : (s.declared ++ s.undeclared).length <
      ([] : List TypeId).length + (s.declared.length + s.undeclared.length + 1) := by
    rw [List.length_append, List.length_nil]
    omega
  exact exists_closedWalk_of_visit (List.isChain_singleton t.id) List.nodup_nil reached enough visited

theorem forall₂_names {walk : List TypeId} (known : ∀ id ∈ walk, ∃ t, s.type? id = some t) :
    List.Forall₂ s.Names walk
      (walk.map fun i => ((s.type? i).map (·.qualifiedName)).getD .null) := by
  rw [List.forall₂_map_right_iff, List.forall₂_same]
  intro id member
  obtain ⟨t, found⟩ := known id member
  exact ⟨t, found, by rw [found, Option.map_some, Option.getD_some]⟩

/-- The types are put in order exactly if no cycle can be reached: each type that can be reached
stands once, after those it refers to. Otherwise the problem names the types on a closed walk. -/
theorem dependencyOrder_outcome (s : Schema) :
    (s.Acyclic ∧ ∃ types, s.dependencyOrder = .ok types ∧ s.Arranged types) ∨
    (¬ s.Acyclic ∧ ∃ walk names, s.ClosedWalk walk ∧ (∀ id ∈ walk, s.Reached id) ∧
      List.Forall₂ s.Names walk names ∧
      s.dependencyOrder = .error (.located (.cycle names) s.name) ∧
      (Cause.cycle names).message =
        "recursive complex types cannot be bound: " ++
          " -> ".intercalate (names.map Json.shown)) := by
  cases walked : s.dependencyIds with
  | ok ids =>
    have acyclic := exists_dependencyIds_iff.mp ⟨ids, walked⟩
    have ordered : s.dependencyOrder = .ok (ids.filterMap s.type?) :=
      map_eq_ok_iff.mpr ⟨ids, walked, rfl⟩
    exact .inl ⟨acyclic, ids.filterMap s.type?, ordered, arranged_of_dependencyIds walked⟩
  | error fault =>
    have cyclic : ¬ s.Acyclic := by
      intro acyclic
      obtain ⟨ids, ordered⟩ := exists_dependencyIds_iff.mpr acyclic
      rw [walked] at ordered
      cases ordered
    obtain ⟨walk, closed, reached, rfl⟩ := exists_closedWalk_of_dependencyIds walked
    exact .inr ⟨cyclic, walk, _, closed, reached, forall₂_names closed.exists_type,
      map_eq_error_iff.mpr walked, rfl⟩

end XmlRecords.Schema
