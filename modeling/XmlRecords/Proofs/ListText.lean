import XmlRecords.Proofs.CodecText

/-!
The texts of lists. The tokens of a text are its longest runs without blanks, however they are spaced; a
list whose items are read again from tokens is read again from the text that it writes, and a text is no
list exactly if one of its tokens is no item.
-/

set_option autoImplicit false
set_option relaxedAutoImplicit false

namespace XmlRecords

open Identifier Text

/-- A way to write tokens down: the blanks before them, and with each token the blanks after it, of which
there are some unless the token is the last one. -/
structure Spacing where
  before : List Char
  entries : List (String × List Char)
  blank_before : before.all isXmlBlank = true
  blank_after : ∀ entry ∈ entries, entry.2.all isXmlBlank = true
  isToken : ∀ entry ∈ entries, IsToken entry.1
  parted : ∀ entry ∈ entries.dropLast, entry.2 ≠ []

namespace Spacing

def text (x : Spacing) : String :=
  String.ofList (x.before ++ x.entries.flatMap fun entry => entry.1.toList ++ entry.2)

def tokens (x : Spacing) : List String := x.entries.map (·.1)

theorem laidOut_entries {entries : List (String × List Char)}
    (blank : ∀ entry ∈ entries, entry.2.all isXmlBlank = true)
    (isToken : ∀ entry ∈ entries, IsToken entry.1) (parted : ∀ entry ∈ entries.dropLast, entry.2 ≠ []) :
    LaidOut isXmlBlank (entries.map (·.1.toList))
      (entries.flatMap fun entry => entry.1.toList ++ entry.2) := by
  induction entries with
  | nil => exact .nil
  | cons entry entries ih =>
    obtain ⟨token, gap⟩ := entry
    obtain ⟨allBlank, blank⟩ := List.forall_mem_cons.mp blank
    have blankHere : ∀ c ∈ gap, isXmlBlank c = true := List.all_eq_true.mp allBlank
    obtain ⟨piece, isToken⟩ := List.forall_mem_cons.mp isToken
    have ends : ∀ c ∈ (gap ++ entries.flatMap fun entry => entry.1.toList ++ entry.2).head?,
        isXmlBlank c = true := by
      intro c first
      cases gap with
      | cons d gap => exact blankHere c (Option.some.inj first ▸ List.mem_cons_self)
      | nil =>
        -- Without blanks the token is the last one.
        cases entries with
        | nil => cases first
        | cons next entries => exact absurd rfl (parted (token, []) (by simp))
    rw [List.map_cons, List.flatMap_cons, List.append_assoc]
    refine .piece piece ends (.dividers blankHere (ih blank isToken fun other member => ?_))
    cases entries with
    | nil => cases member
    | cons next entries => exact parted other (by simpa using .inr member)

end Spacing

theorem tokens_text (x : Spacing) : tokens x.text = x.tokens := by
  have laid := (Spacing.laidOut_entries x.blank_after x.isToken x.parted).dividers
    (List.all_eq_true.mp x.blank_before)
  rw [tokens, Spacing.text, String.toList_ofList, laid.pieces_eq, List.map_map]
  exact List.map_congr_left fun entry _ => String.ofList_toList

namespace Codec

variable {item : Codec}

theorem read_list_eq_ok_iff {raw : String} {v : Value} :
    (Codec.list item).read raw = .ok v ↔
      ∃ vs, v = .list vs ∧ List.Forall₂ (fun token v => item.read token = .ok v) (tokens raw) vs := by
  rw [read, map_eq_ok_iff]
  simp only [mapM_eq_ok_iff]
  exact exists_congr fun vs => and_comm.trans (and_congr_left' eq_comm)

theorem fails_read_list_iff {raw : String} :
    Fails ((Codec.list item).read raw) ↔ ∃ token ∈ tokens raw, Fails (item.read token) := by
  have succeeds : (∃ v, (Codec.list item).read raw = .ok v) ↔
      ∀ token ∈ tokens raw, ∃ v, item.read token = .ok v := by
    simp only [read_list_eq_ok_iff, ← exists_forall₂_iff]
    exact ⟨fun ⟨_, vs, _, all⟩ => ⟨vs, all⟩, fun ⟨vs, all⟩ => ⟨.list vs, vs, rfl, all⟩⟩
  rw [fails_iff, succeeds]
  simp only [fails_iff, not_forall, exists_prop]

theorem read_write_list {vs ws : List Value}
    (again : List.Forall₂ (fun v w => ∃ text, item.write v = .ok text ∧ IsToken text ∧
      item.read text = .ok w) vs ws) :
    ∃ text, (Codec.list item).write (.list vs) = .ok text ∧
      (Codec.list item).read text = .ok (.list ws) := by
  obtain ⟨texts, read, written⟩ := exists_forall₂_and (S := fun w text => item.read text = .ok w)
    (R := fun v text => item.write v = .ok text ∧ IsToken text)
    (again.imp fun v w ⟨spelt, written, token, read⟩ => ⟨spelt, read, written, token⟩)
  have isToken : ∀ text ∈ texts, IsToken text := by
    intro text member
    obtain ⟨v, _, _, token⟩ := exists_of_forall₂_left written.flip member
    exact token
  refine ⟨" ".intercalate texts, write_list_iff.mpr ⟨texts, written.imp fun _ _ => And.left, rfl⟩, ?_⟩
  rw [read_list_eq_ok_iff, tokens_joined isToken]
  exact ⟨ws, rfl, read.flip⟩

/-- Lists split and join. The tokens of a text are its longest runs without blanks, in order, and those
that were written down whatever the blanks between and around them. A list is read again from its text if
its items are from theirs, and these are tokens; a text is no list exactly if some token of it is no
item. -/
theorem list_splits_and_joins (item : Codec) :
    (∀ raw : String, ∃ places : List (Nat × List Char),
      places.map (fun place => String.ofList place.2) = tokens raw ∧
        (places.map (·.1)).Pairwise (· < ·) ∧
        ∀ start run, (start, run) ∈ places ↔ RunAt isXmlBlank raw.toList start run) ∧
    (∀ x : Spacing, tokens x.text = x.tokens) ∧
    (∀ vs ws : List Value,
      List.Forall₂ (fun v w => ∃ text, item.write v = .ok text ∧ IsToken text ∧
        item.read text = .ok w ∧ Value.same w v = true) vs ws →
      ∃ text, (Codec.list item).write (.list vs) = .ok text ∧
        (Codec.list item).read text = .ok (.list ws) ∧ Value.same (.list ws) (.list vs) = true) ∧
    ∀ raw, (Fails ((Codec.list item).read raw) ↔ ∃ token ∈ tokens raw, Fails (item.read token)) ∧
      ∀ v, (Codec.list item).read raw = .ok v ↔ ∃ vs, v = .list vs ∧
        List.Forall₂ (fun token v => item.read token = .ok v) (tokens raw) vs := by
  refine ⟨fun raw => ?_, tokens_text, fun vs ws again => ?_, fun raw => ?_⟩
  · obtain ⟨places, runs, ordered, complete⟩ := exists_places isXmlBlank raw.toList
    refine ⟨places, ?_, ordered, complete⟩
    rw [tokens, ← runs, List.map_map]
    rfl
  · have reread : List.Forall₂ (fun v w => ∃ text, item.write v = .ok text ∧ IsToken text ∧
        item.read text = .ok w) vs ws := by
      refine again.imp ?_
      rintro v w ⟨spelt, written, token, read, _⟩
      exact ⟨spelt, written, token, read⟩
    obtain ⟨text, written, read⟩ := read_write_list reread
    refine ⟨text, written, read, ?_⟩
    rw [Value.same, sameItems_iff]
    refine (again.imp ?_).flip
    rintro v w ⟨_, _, _, _, same⟩
    exact same
  · exact ⟨fails_read_list_iff, fun v => read_list_eq_ok_iff⟩

/-- Two tokens, the first of which holds a blank that is none of XML. -/
def spacedNumbers : Spacing where
  before := ['\t']
  entries := [("1\u00a07", ['\r', '\n', ' ']), ("7", [])]
  blank_before := by decide
  blank_after := by decide
  isToken := by decide
  parted := by decide

theorem list_splits_and_joins_numbers :
    tokens spacedNumbers.text = ["1\u00a07", "7"] ∧
    Fails ((Codec.list (.integer .uint32)).read spacedNumbers.text) ∧
    ∃ text, (Codec.list (.integer .uint32)).write (.list [.boolean true, .integer 7]) = .ok text ∧
      (Codec.list (.integer .uint32)).read text = .ok (.list [.integer 1, .integer 7]) ∧
      Value.same (.list [.integer 1, .integer 7]) (.list [.boolean true, .integer 7]) = true := by
  obtain ⟨_, spaced, again, outcome⟩ := list_splits_and_joins (.integer .uint32)
  have split : tokens spacedNumbers.text = ["1\u00a07", "7"] := spaced spacedNumbers
  have refused : Fails ((Codec.integer .uint32).read "1\u00a07") := ⟨_, rfl⟩
  refine ⟨split, (outcome _).1.mpr ⟨_, split ▸ List.mem_cons_self, refused⟩, again _ _ ?_⟩
  refine .cons ⟨"1", rfl, by decide, rfl, by decide⟩ (.cons ⟨"7", rfl, by decide, rfl, by decide⟩ .nil)

end Codec

end XmlRecords
