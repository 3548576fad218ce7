import Mathlib.Data.List.Infix
import Mathlib.Data.List.TakeWhile
import XmlRecords.Json.Reader

/-!
Where JSON text is refused for the length of a number: only such text has more digits in a row than
an integer may have.
-/

set_option autoImplicit false
set_option relaxedAutoImplicit false

namespace XmlRecords.Json

open Number

/-- More digits follow each other in a text than an integer may have. -/
def Overlong (cs : List Char) : Prop :=
  ∃ run, run <:+: cs ∧ (∀ c ∈ run, c.isDigit = true) ∧ digitLimit < run.length

/-- A reader leaves an end of its text, and refuses an integer for its length only if the text has so
many digits in a row. -/
structure Reads {α : Type} (cs : List Char) (result : Except Stop (α × List Char)) : Prop where
  left : ∀ a rest, result = .ok (a, rest) → rest <:+ cs
  overlong : ∀ stop digits, result = .error stop → stop.refusal = .integerTooLong digits →
    Overlong cs

namespace Reads

variable {α β : Type} {cs cs' : List Char} {result : Except Stop (α × List Char)}

theorem mono (h : Reads cs result) (isEnd : cs <:+ cs') : Reads cs' result := by
  constructor
  · exact fun a rest given => (h.left a rest given).trans isEnd
  · intro stop digits refused long
    obtain ⟨run, inside, count⟩ := h.overlong stop digits refused long
    exact ⟨run, inside.trans isEnd.isInfix, count⟩

theorem ok {a : α} {rest : List Char} (isEnd : rest <:+ cs) : Reads cs (.ok (a, rest)) := by
  constructor
  · intro b rest' given
    obtain ⟨_, rfl⟩ := Prod.mk.inj (Except.ok.inj given)
    exact isEnd
  · exact fun _ _ => nofun

theorem error {stop : Stop} (other : ∀ digits, stop.refusal ≠ .integerTooLong digits) :
    Reads cs (.error stop : Except Stop (α × List Char)) := by
  constructor
  · exact fun _ _ => nofun
  · intro stop' digits given long
    obtain rfl := Except.error.inj given
    exact absurd long (other digits)

theorem passed {stop : Stop} (h : Reads cs (.error stop : Except Stop (α × List Char))) :
    Reads cs (.error stop : Except Stop (β × List Char)) := by
  constructor
  · exact fun _ _ => nofun
  · intro stop' digits given long
    obtain rfl := Except.error.inj given
    exact h.overlong _ digits rfl long

theorem map (h : Reads cs result) (f : α → β) :
    Reads cs (result.map fun (a, rest) => (f a, rest)) := by
  cases result with
  | error stop => exact h.passed
  | ok pair => exact .ok (h.left pair.1 pair.2 rfl)

end Reads

theorem skipSpace_suffix (cs : List Char) : skipSpace cs <:+ cs := List.dropWhile_suffix _

theorem suffix_of_skipSpace {cs rest : List Char} {c : Char} (skipped : skipSpace cs = c :: rest) :
    rest <:+ cs :=
  (List.suffix_cons c rest).trans (skipped ▸ skipSpace_suffix cs)

/-! ### Strings, words and numbers -/

theorem reads_readString (opening : Nat) (units : List Nat) (cs : List Char) :
    Reads cs (readString opening units cs) := by
  fun_induction readString opening units cs with
  | case1 => exact .error (by simp)
  | case2 units rest => exact .ok (List.suffix_cons _ rest)
  | case3 units a b c d e rest n _ ih => exact ih.mono ⟨['\\', 'u', a, b, c, d], by simp⟩
  | case4 => exact .error (by simp)
  | case5 => exact .error (by simp)
  | case6 units c rest _ c' _ _ ih => exact ih.mono ⟨['\\', c], by simp⟩
  | case7 => exact .error (by simp)
  | case8 => exact .error (by simp)
  | case9 => exact .error (by simp)
  | case10 units c rest _ _ _ _ _ _ ih => exact ih.mono (List.suffix_cons c rest)

theorem reads_readWord? {cs : List Char} {found : Json × List Char}
    (isWord : readWord? cs = some found) : Reads cs (.ok found) := by
  obtain ⟨⟨word, value⟩, _, given⟩ := List.exists_of_findSome?_eq_some isWord
  simp only at given
  split at given
  · obtain rfl := Option.some.inj given
    exact .ok (List.drop_suffix _ cs)
  · cases given

theorem takeFraction_suffix (cs : List Char) : (takeFraction cs).2 <:+ cs := by
  unfold takeFraction
  split
  · split
    · exact (List.dropWhile_suffix _).trans (List.suffix_cons _ _)
    · exact List.suffix_refl _
  · exact List.suffix_refl _

theorem takeSign_suffix (cs : List Char) : (takeSign cs).2 <:+ cs := by
  unfold takeSign
  split
  · exact List.suffix_cons _ _
  · exact List.suffix_cons _ _
  · exact List.suffix_refl _

theorem takePower_suffix (cs : List Char) : (takePower cs).2 <:+ cs := by
  unfold takePower
  split
  · rename_i e rest
    split
    · simp only
      split
      · exact List.suffix_refl _
      · have inside := (List.dropWhile_suffix Char.isDigit).trans (takeSign_suffix rest)
        exact inside.trans (List.suffix_cons e rest)
    · exact List.suffix_refl _
  · exact List.suffix_refl _

theorem takeWhole_spec (cs : List Char) :
    (takeWhole cs).1 ++ (takeWhole cs).2 = cs ∧ ∀ c ∈ (takeWhole cs).1, c.isDigit = true := by
  unfold takeWhole
  split
  · exact ⟨rfl, by simp⟩
  · exact ⟨List.takeWhile_append_dropWhile, fun c member => List.mem_takeWhile_imp member⟩

theorem readNumber_cases (cs : List Char) : ∃ body, body <:+ cs ∧
    (readNumber cs = .error ⟨.value, cs.length⟩ ∨
      (digitLimit < (takeWhole body).1.length ∧
        readNumber cs = .error ⟨.integerTooLong (takeWhole body).1.length, cs.length⟩) ∨
      ∃ v, readNumber cs = .ok (v, (takePower (takeFraction (takeWhole body).2).2).2)) := by
  unfold readNumber
  split
  rename_i negative body isBody
  have isEnd : body <:+ cs := by
    split at isBody
    · exact (Prod.mk.inj isBody).2 ▸ List.suffix_cons _ _
    · exact (Prod.mk.inj isBody).2 ▸ List.suffix_refl cs
  refine ⟨body, isEnd, ?_⟩
  simp only
  split_ifs <;> simp_all

theorem reads_readNumber (cs : List Char) : Reads cs (readNumber cs) := by
  obtain ⟨body, isEnd, outcome⟩ := readNumber_cases cs
  obtain ⟨parts, digits⟩ := takeWhole_spec body
  rcases outcome with refused | ⟨long, refused⟩ | ⟨v, read⟩
  · rw [refused]
    exact .error (by simp)
  · have inside : (takeWhole body).1 <:+: cs :=
      (List.IsPrefix.isInfix ⟨_, parts⟩).trans isEnd.isInfix
    exact ⟨fun _ _ given => by simp [refused] at given, fun _ _ _ _ => ⟨_, inside, digits, long⟩⟩
  · rw [read]
    have fraction := (takePower_suffix _).trans (takeFraction_suffix (takeWhole body).2)
    exact .ok ((fraction.trans ⟨_, parts⟩).trans isEnd)

mutual
theorem reads_readValue (fuel : Nat) (cs : List Char) : Reads cs (readValue fuel cs) := by
  cases fuel with
  | zero => exact .error (by simp)
  | succ fuel =>
    unfold readValue
    split
    · rename_i rest
      exact ((reads_readString _ [] rest).map _).mono (List.suffix_cons _ rest)
    · rename_i rest
      split
      · rename_i after closed
        exact .ok ((suffix_of_skipSpace closed).trans (List.suffix_cons _ rest))
      · have members := reads_readMembers fuel [] (skipSpace rest)
        exact (members.map _).mono ((skipSpace_suffix rest).trans (List.suffix_cons _ rest))
    · rename_i rest
      split
      · rename_i after closed
        exact .ok ((suffix_of_skipSpace closed).trans (List.suffix_cons _ rest))
      · have items := reads_readItems fuel [] (skipSpace rest)
        exact (items.map _).mono ((skipSpace_suffix rest).trans (List.suffix_cons _ rest))
    · split
      · rename_i found isWord
        exact reads_readWord? isWord
      · exact reads_readNumber cs

theorem reads_readItems (fuel : Nat) (items : List Json) (cs : List Char) :
    Reads cs (readItems fuel items cs) := by
  cases fuel with
  | zero => exact .error (by simp)
  | succ fuel =>
    rw [readItems]
    have first := reads_readValue fuel cs
    split
    · rename_i stop refused
      rw [refused] at first
      exact first.passed
    · rename_i item rest read
      have onward := first.left item rest read
      split
      · rename_i after closed
        exact .ok ((suffix_of_skipSpace closed).trans onward)
      · rename_i after next
        have others := reads_readItems fuel (item :: items) (skipSpace after)
        exact others.mono ((skipSpace_suffix after).trans ((suffix_of_skipSpace next).trans onward))
      · exact .error (by simp)

theorem reads_readMembers (fuel : Nat) (members : List (String × Json)) (cs : List Char) :
    Reads cs (readMembers fuel members cs) := by
  cases fuel with
  | zero => exact .error (by simp)
  | succ fuel =>
    unfold readMembers
    split
    · rename_i rest
      have named := (reads_readString (('"' :: rest).length) [] rest).mono (List.suffix_cons '"' rest)
      split
      · rename_i stop refused
        rw [refused] at named
        exact named.passed
      · rename_i key after read
        have onward := named.left key after read
        split
        · rename_i inner colon
          have inside := (skipSpace_suffix inner).trans ((suffix_of_skipSpace colon).trans onward)
          have value := (reads_readValue fuel (skipSpace inner)).mono inside
          split
          · rename_i stop refused
            rw [refused] at value
            exact value.passed
          · rename_i v left read
            have ends := value.left v left read
            split
            · rename_i outer closed
              exact .ok ((suffix_of_skipSpace closed).trans ends)
            · rename_i outer next
              have others := reads_readMembers fuel (putMember key v members) (skipSpace outer)
              exact others.mono ((skipSpace_suffix outer).trans ((suffix_of_skipSpace next).trans ends))
            · exact .error (by simp)
        · exact .error (by simp)
    · exact .error (by simp)
end

theorem overlong_of_read {text : String} {stop : Stop} {digits : Nat}
    (refused : read text = .error stop) (long : stop.refusal = .integerTooLong digits) :
    Overlong text.toList := by
  unfold read at refused
  simp only at refused
  split at refused
  · obtain rfl := Except.error.inj refused
    cases long
  · have value := (reads_readValue (text.toList.length + 1) (skipSpace text.toList)).mono
      (skipSpace_suffix text.toList)
    split at refused
    · rename_i stop' given
      obtain rfl := Except.error.inj refused
      exact value.overlong _ digits given long
    · split at refused
      · cases refused
      · obtain rfl := Except.error.inj refused
        cases long

end XmlRecords.Json
