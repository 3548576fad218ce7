import Mathlib.Algebra.Group.Nat.Defs
import Mathlib.Data.List.Basic
import XmlRecords.Text.Literal
import XmlRecords.Text.LiteralValue

/-!
Literals written and read again. A literal denotes the UTF-16 units of the text that it was written
for, hence the text itself if its characters lie in the basic plane.
-/

set_option autoImplicit false
set_option relaxedAutoImplicit false

namespace XmlRecords.Text

def writtenPoints (s : String) : List Nat := s.toList.flatMap utf16Units

/-- Holds of the texts whose characters have one UTF-16 unit each. -/
def IsBasic (s : String) : Prop := ∀ c ∈ s.toList, c.toNat < 0x10000

instance (s : String) : Decidable (IsBasic s) := List.decidableBAll _ s.toList

theorem toNat_lt (c : Char) : c.toNat < 0x110000 := by
  rcases c.valid with below | ⟨_, above⟩
  · exact Nat.lt_trans below (by decide)
  · exact above

/-! ### Escapes -/

theorem hexValue?_digitChar : ∀ d < 16, hexValue? (Nat.digitChar d) = some d := by
  decide

namespace LiteralState

/-- What is read from a place on, with code points read before it. -/
def preceded (points : List Nat) : Option (List Nat × List Char) → Option (List Nat × List Char) :=
  Option.map (Prod.map (points ++ ·) id)

theorem preceded_nil (read : Option (List Nat × List Char)) : preceded [] read = read := by
  cases read <;> rfl

theorem preceded_append (first rest : List Nat) (read : Option (List Nat × List Char)) :
    preceded (first ++ rest) read = preceded first (preceded rest read) := by
  cases read with
  | none => rfl
  | some result => simp [preceded, Prod.map]

theorem readAll?_cons {state next : LiteralState} {c : Char} {points : List Nat} (cs : List Char)
    (read : state.read? c = some (points, next)) :
    state.readAll? (c :: cs) = preceded points (next.readAll? cs) := by
  rw [readAll?]
  · simp only [read, bind, Option.bind, preceded]
    cases next.readAll? cs <;> rfl
  · rintro rfl
    cases read

theorem readAll?_digit {left n d : Nat} (cs : List Char) (more : left ≠ 1) (digit : d < 16) :
    (hexadecimal left n).readAll? (Nat.digitChar d :: cs) =
      (hexadecimal (left - 1) (16 * n + d)).readAll? cs := by
  have read : (hexadecimal left n).read? (Nat.digitChar d) =
      some ([], hexadecimal (left - 1) (16 * n + d)) := by
    simp only [read?, hexValue?_digitChar d digit, if_pos more]
  rw [readAll?_cons cs read, preceded_nil]

theorem readAll?_hexDigits {width m : Nat} (left n : Nat) (cs : List Char) (fits : m < 16 ^ width)
    (more : 1 ≤ left) :
    (hexadecimal (width + left) n).readAll? (hexDigits width m ++ cs) =
      (hexadecimal left (16 ^ width * n + m)).readAll? cs := by
  induction width generalizing left m cs with
  | zero =>
    obtain rfl : m = 0 := by simpa using fits
    simp [hexDigits]
  | succ width ih =>
    have upper : m / 16 < 16 ^ width := Nat.div_lt_of_lt_mul (by rwa [← Nat.pow_succ'])
    have number : 16 * (16 ^ width * n + m / 16) + m % 16 = 16 ^ (width + 1) * n + m := by
      rw [Nat.pow_succ', Nat.mul_add, ← Nat.mul_assoc]
      omega
    have front := ih (left + 1) ([Nat.digitChar (m % 16)] ++ cs) upper (by omega)
    rw [hexDigits, List.append_assoc, Nat.add_right_comm, Nat.add_assoc, front, List.singleton_append,
      readAll?_digit cs (by omega) (Nat.mod_lt m (by decide)), Nat.add_sub_cancel, number]

theorem readAll?_unitEscape {unit : Nat} (cs : List Char) (fits : unit < 0x10000) :
    plain.readAll? (unitEscape unit ++ cs) = preceded [unit] (plain.readAll? cs) := by
  have upper : unit / 16 < 16 ^ 3 := by omega
  have number : 16 * (unit / 16) + unit % 16 = unit := Nat.div_add_mod unit 16
  have last : (hexadecimal 1 (unit / 16)).read? (Nat.digitChar (unit % 16)) =
      some ([unit], plain) := by
    simp only [read?, hexValue?_digitChar _ (Nat.mod_lt unit (by decide)), number]
    rw [if_neg (by simp), if_pos (by omega)]
  have front := readAll?_hexDigits 1 0 ([Nat.digitChar (unit % 16)] ++ cs) upper
    (Nat.le_refl 1)
  have opened : plain.read? '\\' = some ([], escape) := rfl
  have unicode : escape.read? 'u' = some ([], hexadecimal 4 0) := rfl
  rw [unitEscape, List.cons_append, List.cons_append, readAll?_cons _ opened,
    readAll?_cons _ unicode, preceded_nil, preceded_nil, hexDigits,
    List.append_assoc, front, Nat.mul_zero, Nat.zero_add, List.singleton_append, readAll?_cons cs last]

theorem lt_of_mem_utf16Units {c : Char} {unit : Nat} (member : unit ∈ utf16Units c) :
    unit < 0x10000 := by
  have bound : c.toNat < 0x110000 := toNat_lt c
  unfold utf16Units at member
  split at member
  · rw [List.mem_singleton.mp member]
    assumption
  · simp only [List.mem_cons, List.not_mem_nil, or_false] at member
    omega

theorem readAll?_unitEscapes {units : List Nat} (cs : List Char) (fit : ∀ u ∈ units, u < 0x10000) :
    plain.readAll? (units.flatMap unitEscape ++ cs) = preceded units (plain.readAll? cs) := by
  induction units with
  | nil => exact (preceded_nil _).symm
  | cons unit units ih =>
    obtain ⟨here, below⟩ := List.forall_mem_cons.mp fit
    rw [List.flatMap_cons, List.append_assoc, readAll?_unitEscape _ here, ih below, ← preceded_append,
      List.singleton_append]

/-- What a character is written as inside a literal denotes its UTF-16 units. -/
theorem readAll?_literalChar (c : Char) (cs : List Char) :
    plain.readAll? (literalChar c ++ cs) = preceded (utf16Units c) (plain.readAll? cs) := by
  have escaped {d : Char} {n : Nat} (read : escape.read? d = some ([n], plain)) :
      plain.readAll? (['\\', d] ++ cs) = preceded [n] (plain.readAll? cs) := by
    have opened : plain.read? '\\' = some ([], escape) := rfl
    rw [List.cons_append, readAll?_cons _ opened, preceded_nil, List.singleton_append,
      readAll?_cons cs read]
  have inBasic {d : Char} (small : d.toNat < 0x10000) : utf16Units d = [d.toNat] := if_pos small
  unfold literalChar
  split
  · rename_i special
    rcases special with rfl | rfl <;> exact escaped rfl
  -- line feed, carriage return, tab, backspace and form feed
  iterate 5
    split
    · rename_i isChar
      exact isChar ▸ escaped rfl
  split
  · rename_i quotes feed ret _ _ _ printable
    have read : plain.read? c = some ([c.toNat], plain) := by
      have noNul : c ≠ '\x00' := by
        rintro rfl
        exact absurd printable.1 (by decide)
      rw [not_or] at quotes
      rw [read?, readPlain?, if_neg quotes.1, if_neg quotes.2, if_neg (by simp [feed, ret, noNul])]
    rw [inBasic (by omega), List.singleton_append, readAll?_cons cs read]
  · exact readAll?_unitEscapes cs fun _ => lt_of_mem_utf16Units

theorem readAll?_literalChars (cs rest : List Char) :
    plain.readAll? (cs.flatMap literalChar ++ '"' :: rest) = some (cs.flatMap utf16Units, rest) := by
  induction cs with
  | nil =>
    have read : plain.read? '"' = some ([], closed) := rfl
    rw [List.flatMap_nil, List.nil_append, readAll?_cons rest read, readAll?]
    rfl
  | cons c cs ih =>
    rw [List.flatMap_cons, List.append_assoc, readAll?_literalChar, ih]
    rfl

end LiteralState

/-! ### Literals -/

theorem readLiteral?_literal (s : String) (rest : List Char) (apart : rest.head? ≠ some '"') :
    readLiteral? ((literal s).toList ++ rest) = some (writtenPoints s, rest) := by
  have read := LiteralState.readAll?_literalChars s.toList rest
  have shape : (literal s).toList ++ rest = '"' :: (s.toList.flatMap literalChar ++ '"' :: rest) := by
    rw [literal, String.toList_ofList, List.cons_append, List.cons_append, List.append_assoc,
      List.singleton_append]
  rw [shape, readLiteral?]
  · exact read
  · -- the second quote closes the literal, and the third would follow it
    intro tail quotes
    have closes : LiteralState.plain.read? '"' = some ([], .closed) := rfl
    rw [quotes, LiteralState.readAll?_cons _ closes, LiteralState.readAll?] at read
    have isRest : '"' :: tail = rest := congrArg Prod.snd (Option.some.inj read)
    exact apart (by rw [← isRest, List.head?_cons])

theorem writtenPoints_eq_iff (s : String) :
    writtenPoints s = s.toList.map Char.toNat ↔ IsBasic s := by
  unfold writtenPoints IsBasic
  induction s.toList with
  | nil => simp
  | cons c cs ih =>
    rw [List.flatMap_cons, List.map_cons, List.forall_mem_cons, ← ih]
    by_cases small : c.toNat < 0x10000
    · rw [utf16Units, if_pos small, List.singleton_append, List.cons.injEq]
      exact and_congr_left fun _ => iff_of_true rfl small
    · -- the first of two units is smaller than the character
      rw [utf16Units, if_neg small]
      refine iff_of_false (fun same => ?_) fun both => small both.1
      have first : 0xD800 + (c.toNat - 0x10000) / 0x400 = c.toNat := (List.cons.inj same).1
      have bound : c.toNat < 0x110000 := toNat_lt c
      omega

theorem denotes_literal_iff (s : String) : Denotes (literal s) s ↔ IsBasic s := by
  have read := readLiteral?_literal s [] (by simp)
  rw [List.append_nil] at read
  rw [Denotes, read, Option.some.injEq, Prod.mk.injEq, and_iff_left rfl, writtenPoints_eq_iff]

end XmlRecords.Text
