import Mathlib.Data.List.Forall2

/-!
Computations that may fail, one after another: when a list of them succeeds, and when one fails.
-/

set_option autoImplicit false
set_option relaxedAutoImplicit false

namespace XmlRecords

variable {α β γ ε : Type}

def Fails (result : Except ε α) : Prop := ∃ fault, result = .error fault

theorem fails_iff (result : Except ε α) : Fails result ↔ ¬ ∃ a, result = .ok a := by
  cases result with
  | error fault => simp [Fails]
  | ok a => simp [Fails]

theorem not_fails_iff (result : Except ε α) : ¬ Fails result ↔ ∃ a, result = .ok a := by
  rw [fails_iff, not_not]

theorem not_fails_ok (a : α) : ¬ Fails (.ok a : Except ε α) := by
  simp [Fails]

theorem bind_eq_ok_iff {first : Except ε α} {next : α → Except ε β} {b : β} :
    (first >>= next) = .ok b ↔ ∃ a, first = .ok a ∧ next a = .ok b := by
  cases first with
  | error fault => simp [bind, Except.bind]
  | ok a => simp [bind, Except.bind]

theorem bind_eq_error_iff {first : Except ε α} {next : α → Except ε β} {fault : ε} :
    (first >>= next) = .error fault ↔
      first = .error fault ∨ ∃ a, first = .ok a ∧ next a = .error fault := by
  cases first with
  | error other => simp [bind, Except.bind]
  | ok a => simp [bind, Except.bind]

theorem map_eq_ok_iff {f : α → β} {result : Except ε α} {b : β} :
    result.map f = .ok b ↔ ∃ a, result = .ok a ∧ f a = b := by
  cases result with
  | error fault => simp [Except.map]
  | ok a => simp [Except.map]

theorem map_eq_error_iff {f : α → β} {result : Except ε α} {fault : ε} :
    result.map f = .error fault ↔ result = .error fault := by
  cases result with
  | error other => simp [Except.map]
  | ok a => simp [Except.map]

theorem mapError_eq_ok_iff {f : ε → γ} {result : Except ε α} {a : α} :
    result.mapError f = .ok a ↔ result = .ok a := by
  cases result with
  | error fault => simp [Except.mapError]
  | ok b => simp [Except.mapError]

theorem mapM_eq_ok_iff {f : α → Except ε β} {xs : List α} {ys : List β} :
    xs.mapM f = .ok ys ↔ List.Forall₂ (fun x y => f x = .ok y) xs ys := by
  induction xs generalizing ys with
  | nil =>
    simp only [List.mapM_nil, List.forall₂_nil_left_iff, pure, Except.pure, Except.ok.injEq]
    exact eq_comm
  | cons x xs ih =>
    simp only [List.mapM_cons, bind_eq_ok_iff, ih, List.forall₂_cons_left_iff]
    constructor
    · rintro ⟨y, hy, ys', hys, h⟩
      exact ⟨y, ys', hy, hys, (Except.ok.inj h).symm⟩
    · rintro ⟨y, ys', hy, hys, rfl⟩
      exact ⟨y, hy, ys', hys, rfl⟩

theorem forM_eq_ok_iff {f : α → Except ε Unit} {xs : List α} :
    xs.forM f = .ok () ↔ ∀ x ∈ xs, f x = .ok () := by
  induction xs with
  | nil => simp [pure, Except.pure]
  | cons x xs ih =>
    rw [List.forall_mem_cons, ← ih, List.forM, bind_eq_ok_iff]
    exact ⟨fun ⟨_, here, rest⟩ => ⟨here, rest⟩, fun ⟨here, rest⟩ => ⟨(), here, rest⟩⟩

theorem exists_of_mapM_eq_error {f : α → Except ε β} {xs : List α} {fault : ε}
    (failed : xs.mapM f = .error fault) : ∃ x ∈ xs, f x = .error fault := by
  induction xs with
  | nil => cases failed
  | cons x xs ih =>
    rw [List.mapM_cons] at failed
    cases here : f x with
    | error other =>
      rw [here] at failed
      obtain rfl := Except.error.inj failed
      exact ⟨x, List.mem_cons_self, here⟩
    | ok y =>
      rw [here] at failed
      cases below : xs.mapM f with
      | error other =>
        rw [below] at failed
        obtain rfl := Except.error.inj failed
        obtain ⟨z, member, refused⟩ := ih below
        exact ⟨z, List.mem_cons_of_mem x member, refused⟩
      | ok ys =>
        rw [below] at failed
        cases failed

theorem exists_of_mapM_eq_some {f : α → Option β} {xs : List α} {ys : List β}
    (given : xs.mapM f = some ys) {y : β} (member : y ∈ ys) : ∃ x ∈ xs, f x = some y := by
  induction xs generalizing ys with
  | nil =>
    obtain rfl := Option.some.inj given
    cases member
  | cons x xs ih =>
    rw [List.mapM_cons] at given
    obtain ⟨z, here, given⟩ := Option.bind_eq_some_iff.mp given
    obtain ⟨zs, below, given⟩ := Option.bind_eq_some_iff.mp given
    obtain rfl := Option.some.inj given
    rcases List.mem_cons.mp member with rfl | later
    · exact ⟨x, List.mem_cons_self, here⟩
    · obtain ⟨x', inside, same⟩ := ih below later
      exact ⟨x', List.mem_cons_of_mem x inside, same⟩

theorem mapM_congr_mem {f g : α → Except ε β} {xs : List α} (same : ∀ x ∈ xs, f x = g x) :
    xs.mapM f = xs.mapM g := by
  induction xs with
  | nil => rfl
  | cons x xs ih =>
    rw [List.mapM_cons, List.mapM_cons, same x List.mem_cons_self,
      ih fun y member => same y (List.mem_cons_of_mem x member)]

theorem forall₂_imp_mem {R S : α → β → Prop} {xs : List α} {ys : List β}
    (related : List.Forall₂ R xs ys) (imp : ∀ x ∈ xs, ∀ y, R x y → S x y) : List.Forall₂ S xs ys := by
  induction related with
  | nil => exact .nil
  | @cons x y _ _ head _ ih =>
    exact .cons (imp x List.mem_cons_self y head)
      (ih fun x' member => imp x' (List.mem_cons_of_mem x member))

theorem forall₂_congr_mem {R S : α → β → Prop} {xs : List α} {ys : List β}
    (agree : ∀ x ∈ xs, ∀ y, R x y ↔ S x y) : List.Forall₂ R xs ys ↔ List.Forall₂ S xs ys :=
  ⟨fun related => forall₂_imp_mem related fun x member y => (agree x member y).mp,
    fun related => forall₂_imp_mem related fun x member y => (agree x member y).mpr⟩

theorem exists_of_forall₂_left {R : α → β → Prop} {xs : List α} {ys : List β}
    (related : List.Forall₂ R xs ys) {x : α} (member : x ∈ xs) : ∃ y ∈ ys, R x y := by
  induction related with
  | nil => cases member
  | @cons a b _ _ head tail ih =>
    rcases List.mem_cons.mp member with rfl | below
    · exact ⟨b, List.mem_cons_self, head⟩
    · obtain ⟨y, inside, holds⟩ := ih below
      exact ⟨y, List.mem_cons_of_mem b inside, holds⟩

theorem map_eq_of_forall₂ {R : α → β → Prop} {f : α → γ} {g : β → γ} {xs : List α} {ys : List β}
    (related : List.Forall₂ R xs ys) (agree : ∀ x y, R x y → g y = f x) : xs.map f = ys.map g := by
  induction related with
  | nil => rfl
  | cons head _ ih => rw [List.map_cons, List.map_cons, ih, agree _ _ head]

theorem forall_mem_iff_of_forall₂ {R : α → β → Prop} {P : α → Prop} {Q : β → Prop} {xs : List α}
    {ys : List β} (related : List.Forall₂ R xs ys) (agree : ∀ x y, R x y → (P x ↔ Q y)) :
    (∀ x ∈ xs, P x) ↔ ∀ y ∈ ys, Q y := by
  induction related with
  | nil => simp
  | cons head _ ih => rw [List.forall_mem_cons, List.forall_mem_cons, agree _ _ head, ih]

theorem exists_mem_zip {xs : List α} {ys : List β} (same : xs.length = ys.length) {x : α}
    (member : x ∈ xs) : ∃ y, (x, y) ∈ xs.zip ys := by
  have paired : List.Forall₂ (fun x y => (x, y) ∈ xs.zip ys) xs ys :=
    List.forall₂_iff_zip.mpr ⟨same, fun inside => inside⟩
  obtain ⟨y, _, inside⟩ := exists_of_forall₂_left paired member
  exact ⟨y, inside⟩

theorem exists_forall₂_iff {R : α → β → Prop} {xs : List α} :
    (∃ ys, List.Forall₂ R xs ys) ↔ ∀ x ∈ xs, ∃ y, R x y := by
  induction xs with
  | nil => simp
  | cons x xs ih =>
    simp only [List.forall₂_cons_left_iff, List.forall_mem_cons, ← ih]
    constructor
    · rintro ⟨_, y, ys, hy, hys, rfl⟩
      exact ⟨⟨y, hy⟩, ys, hys⟩
    · rintro ⟨⟨y, hy⟩, ys, hys⟩
      exact ⟨_, y, ys, hy, hys, rfl⟩

theorem exists_forall₂_and {R : α → β → Prop} {S : γ → β → Prop} {xs : List α} {zs : List γ}
    (related : List.Forall₂ (fun x z => ∃ y, S z y ∧ R x y) xs zs) :
    ∃ ys, List.Forall₂ S zs ys ∧ List.Forall₂ R xs ys := by
  induction related with
  | nil => exact ⟨[], .nil, .nil⟩
  | cons head _ ih =>
    obtain ⟨y, here, there⟩ := head
    obtain ⟨ys, first, second⟩ := ih
    exact ⟨y :: ys, .cons here first, .cons there second⟩

theorem forall₂_comp {R : α → β → Prop} {S : β → γ → Prop} {xs : List α} {ys : List β} {zs : List γ}
    (first : List.Forall₂ R xs ys) (second : List.Forall₂ S ys zs) :
    List.Forall₂ (fun x z => ∃ y, R x y ∧ S y z) xs zs := by
  induction first generalizing zs with
  | nil =>
    rw [List.forall₂_nil_left_iff] at second
    subst zs
    exact .nil
  | @cons x y _ _ here _ ih =>
    obtain ⟨z, zs, next, others, rfl⟩ := List.forall₂_cons_left_iff.mp second
    exact .cons ⟨y, here, next⟩ (ih others)

theorem exists_append_of_forall₂ {R : α → β → Prop} {xs ys : List α} {zs : List β}
    (related : List.Forall₂ R (xs ++ ys) zs) :
    ∃ us vs, zs = us ++ vs ∧ List.Forall₂ R xs us ∧ List.Forall₂ R ys vs := by
  induction xs generalizing zs with
  | nil => exact ⟨[], zs, rfl, .nil, related⟩
  | cons x xs ih =>
    obtain ⟨z, rest, head, tail, rfl⟩ := List.forall₂_cons_left_iff.mp related
    obtain ⟨us, vs, rfl, first, second⟩ := ih tail
    exact ⟨z :: us, vs, rfl, .cons head first, second⟩

theorem getLast?_of_forall₂ {R : α → β → Prop} {xs : List α} {ys : List β}
    (related : List.Forall₂ R xs ys) :
    (xs.getLast? = none ∧ ys.getLast? = none) ∨
      ∃ x y, xs.getLast? = some x ∧ ys.getLast? = some y ∧ R x y := by
  have reversed := List.forall₂_reverse_iff.mpr related
  rw [List.getLast?_eq_head?_reverse, List.getLast?_eq_head?_reverse]
  generalize xs.reverse = us at reversed ⊢
  generalize ys.reverse = vs at reversed ⊢
  cases reversed with
  | nil => exact .inl ⟨rfl, rfl⟩
  | cons head _ => exact .inr ⟨_, _, rfl, rfl, head⟩

theorem exists_of_forall₂_round {R : α → β → Prop} {S : β → γ → Prop} {T : γ → α → Prop}
    {xs : List α} {ys : List β} {zs : List γ} (first : List.Forall₂ R xs ys)
    (second : List.Forall₂ S ys zs) (third : List.Forall₂ T zs xs) {x : α} (member : x ∈ xs) :
    ∃ y z, R x y ∧ S y z ∧ T z x := by
  have round := forall₂_comp first (forall₂_comp second third)
  rw [List.forall₂_same] at round
  obtain ⟨y, related, z, next, back⟩ := round x member
  exact ⟨y, z, related, next, back⟩

theorem exists_mapM_eq_ok_iff {f : α → Except ε β} {xs : List α} :
    (∃ ys, xs.mapM f = .ok ys) ↔ ∀ x ∈ xs, ∃ y, f x = .ok y := by
  simp only [mapM_eq_ok_iff, exists_forall₂_iff]

end XmlRecords
