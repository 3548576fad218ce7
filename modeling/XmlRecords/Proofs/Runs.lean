import Mathlib.Data.List.TakeWhile

/-!
The run of members of a class at the start of a list, and what follows it.
-/

set_option autoImplicit false
set_option relaxedAutoImplicit false

namespace XmlRecords

variable {α : Type} {p : α → Bool}

theorem drop_length_takeWhile (xs : List α) : xs.drop (xs.takeWhile p).length = xs.dropWhile p := by
  have cut : (xs.takeWhile p ++ xs.dropWhile p).drop (xs.takeWhile p).length = xs.dropWhile p :=
    List.drop_left' rfl
  rw [List.takeWhile_append_dropWhile] at cut
  exact cut

theorem not_of_dropWhile_eq_cons {xs rest : List α} {x : α} (h : xs.dropWhile p = x :: rest) :
    p x = false := by
  have head := List.head?_dropWhile_not p xs
  rw [h] at head
  simpa using head

end XmlRecords
