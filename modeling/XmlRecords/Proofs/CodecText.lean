import Mathlib.Data.List.Nodup
import XmlRecords.Proofs.Characters
import XmlRecords.Proofs.Lexing
import XmlRecords.Proofs.NumberText
import XmlRecords.Proofs.Outcomes
import XmlRecords.Proofs.Pieces
import XmlRecords.Value.Same

/-!
Codecs there and back: which values are read again from the texts they are written as.
-/

set_option autoImplicit false
set_option relaxedAutoImplicit false

namespace XmlRecords

open Number Text Xml
open Identifier (IsPiece laidOut_intercalate laidOut_pieces)

mutual
def Value.reals : Value → List Binary64
  | .real x => [x]
  | .list items => Value.realsOfAll items
  | .record _ values => Value.realsOfAll values
  | _ => []

def Value.realsOfAll : List Value → List Binary64
  | [] => []
  | v :: values => v.reals ++ Value.realsOfAll values
end

def Value.Exact (v : Value) : Prop := ∀ x ∈ v.reals, realOfText? x.text = some x

theorem mem_realsOfAll {values : List Value} {v : Value} (member : v ∈ values) {x : Binary64}
    (inside : x ∈ v.reals) : x ∈ Value.realsOfAll values := by
  induction values with
  | nil => cases member
  | cons w values ih =>
    rw [Value.realsOfAll, List.mem_append]
    rcases List.mem_cons.mp member with rfl | below
    · exact .inl inside
    · exact .inr (ih below)

theorem sameItems_iff {values others : List Value} :
    Value.sameItems values others = true ↔
      List.Forall₂ (fun v w => Value.same v w = true) values others := by
  induction values generalizing others with
  | nil => cases others <;> simp [Value.sameItems]
  | cons v values ih =>
    cases others with
    | nil => simp [Value.sameItems]
    | cons w others => simp [Value.sameItems, ih]

mutual
theorem Value.same_self {v : Value} (numbers : .nan ∉ v.reals) : Value.same v v = true := by
  cases v with
  | absent => simp [Value.same]
  | boolean b => simp [Value.same, Value.sameNumber, Value.numeric?]
  | integer n => simp [Value.same, Value.sameNumber, Value.numeric?]
  | text s => simp [Value.same]
  | tag e t => simp [Value.same, Value.sameNumber, Value.numeric?]
  | real x =>
    simp only [Value.reals, List.mem_singleton] at numbers
    simp only [Value.same, Value.numeric?]
    cases whole : x.toInt? with
    | some n => simp [Value.sameNumber]
    | none =>
      cases x with
      | nan => exact absurd rfl numbers
      | infinity negative => simp [Value.sameNumber, Binary64.same]
      | finite negative m q => simp [Value.sameNumber, Binary64.same]
  | list items =>
    rw [Value.same]
    exact Value.sameItems_self (by simpa only [Value.reals] using numbers)
  | record layout values =>
    rw [Value.same, beq_self_eq_true, Bool.true_and]
    exact Value.sameItems_self (by simpa only [Value.reals] using numbers)

theorem Value.sameItems_self {values : List Value} (numbers : .nan ∉ Value.realsOfAll values) :
    Value.sameItems values values = true := by
  cases values with
  | nil => rfl
  | cons v values =>
    rw [Value.realsOfAll, List.mem_append, not_or] at numbers
    rw [Value.sameItems, Value.same_self numbers.1, Value.sameItems_self numbers.2]
    rfl
end

/-! ### Tags -/

namespace Enumeration

/-- The texts of an enumeration have tags of their own, none of them `UNKNOWN`. -/
structure Distinct (e : Enumeration) : Prop where
  tags : (e.entries.map (·.1)).Nodup
  unreserved : "UNKNOWN" ∉ e.entries.map (·.1)

theorem numbered_increasing (className : String) (n : Int) (entries : List (String × String)) :
    (∀ t ∈ numbered className n entries, n ≤ t.number) ∧
      ((numbered className n entries).map (·.number)).Pairwise (· < ·) := by
  induction entries generalizing n with
  | nil => simp [numbered]
  | cons entry entries ih =>
    obtain ⟨above, increasing⟩ := ih (n + 1)
    obtain ⟨tag, text⟩ := entry
    have later : ∀ t ∈ numbered className (n + 1) entries, n < t.number := by
      intro t member
      have := above t member
      omega
    rw [numbered]
    split
    · exact ⟨fun t member => Int.le_of_lt (later t member), increasing⟩
    · refine ⟨List.forall_mem_cons.mpr ⟨Int.le_refl n, fun t member => Int.le_of_lt (later t member)⟩, ?_⟩
      rw [List.map_cons, List.pairwise_cons]
      refine ⟨?_, increasing⟩
      intro number listed
      obtain ⟨t, member, rfl⟩ := List.mem_map.mp listed
      exact later t member

theorem eq_of_number {e : Enumeration} {t u : Tag} (ht : t ∈ e.tags) (hu : u ∈ e.tags)
    (same : t.number = u.number) : t = u := by
  obtain ⟨above, increasing⟩ := numbered_increasing e.name 0 e.entries
  have distinct : (e.tags.map (·.number)).Nodup := by
    rw [tags, List.map_cons, List.nodup_cons]
    refine ⟨?_, increasing.imp fun less => Int.ne_of_lt less⟩
    intro listed
    obtain ⟨v, member, isUnknown⟩ := List.mem_map.mp listed
    have nonneg := above v member
    have isLess : v.number = -1 := isUnknown
    omega
  exact List.inj_on_of_nodup_map distinct ht hu same

theorem unknown_mem (e : Enumeration) : unknown ∈ e.tags := List.mem_cons_self

/-- A text gives a tag of its enumeration, which then stands for that text alone. -/
theorem ofText_eq_ok {e : Enumeration} (distinct : e.Distinct) {raw : String} {t : Tag}
    (read : e.ofText raw = .ok t) :
    t ∈ e.tags ∧ (t ≠ unknown → ∀ text, e.toText t = .ok text → text = raw) := by
  unfold ofText at read
  split at read
  · cases read
  split at read
  · cases read
  split at read
  · rename_i tag raw' found
    have holds := List.find?_some found
    have member := List.mem_of_find?_eq_some found
    have isRaw : raw' = raw := beq_iff_eq.mp holds
    subst isRaw
    obtain rfl := Except.ok.inj read
    cases named : e.tagNamed? tag with
    | none => exact ⟨e.unknown_mem, fun other => absurd rfl other⟩
    | some t =>
      have holds := List.find?_some named
      have isTag : t.name = tag := beq_iff_eq.mp holds
      refine ⟨List.mem_of_find?_eq_some named, ?_⟩
      intro _ text written
      rw [Option.getD_some, toText] at written
      split at written
      · cases written
      split at written
      · rename_i tag' text' found'
        have holds := List.find?_some found'
        have sameTag : tag' = tag := (beq_iff_eq.mp holds).trans isTag
        have pair := List.inj_on_of_nodup_map distinct.tags (List.mem_of_find?_eq_some found') member
          sameTag
        obtain rfl := Except.ok.inj written
        exact (Prod.mk.inj pair).2
      · rename_i absent
        have other := List.find?_eq_none.mp absent _ member
        simp [isTag] at other
  · obtain rfl := Except.ok.inj read
    exact ⟨e.unknown_mem, fun other => absurd rfl other⟩

theorem toText_unknown {e : Enumeration} (distinct : e.Distinct) {text : String}
    (written : e.toText unknown = .ok text) : text = "-1" := by
  unfold toText at written
  split at written
  · cases written
  split at written
  · rename_i tag text' found
    have holds := List.find?_some found
    have isUnknown : tag = "UNKNOWN" := beq_iff_eq.mp holds
    exact absurd (List.mem_map.mpr ⟨_, List.mem_of_find?_eq_some found, isUnknown⟩) distinct.unreserved
  · exact (Except.ok.inj written).symm

end Enumeration

/-! ### Single values -/

namespace Codec

def IsFlat : Codec → Prop
  | .list _ => False
  | _ => True

/-- Lists are not of lists, and enumerations have tags of their own. -/
def Proper : Codec → Prop
  | .enumeration e => e.Distinct
  | .list item => item.IsFlat ∧ item.Proper
  | _ => True

def Yields (codec : Codec) (v : Value) : Prop :=
  v = codec.zero ∨ ∃ raw, Legible raw.toList ∧ codec.read raw = .ok v

/-- Every tag in a value has a text, and where that is the number of `UNKNOWN`, the text does not
denote another tag. -/
def Keeps : Codec → Value → Prop
  | .enumeration e, .tag _ t =>
    ∃ text, e.toText t = .ok text ∧ (t = Enumeration.unknown → e.ofText text = .ok t)
  | .list item, .list items => ∀ v ∈ items, item.Keeps v
  | _, _ => True

variable {codec : Codec} {v w : Value} {raw text : String}

theorem readInteger_eq_ok {width : IntegerWidth} (read : readInteger width raw = .ok v) :
    ∃ n, v = .integer n ∧ width.least ≤ n ∧ n ≤ width.greatest := by
  unfold readInteger at read
  split at read
  · split at read
    · cases read
    · rename_i n _
      split at read
      · rename_i bounds
        exact ⟨n, (Except.ok.inj read).symm, bounds⟩
      · cases read
  · cases read

theorem readReal_eq_ok {width : RealWidth} (read : readReal width raw = .ok v) :
    ∃ x, v = .real x := by
  unfold readReal at read
  split at read
  · exact ⟨_, (Except.ok.inj read).symm⟩
  · cases read

theorem isWord_unknown : IsWord "-1" := isWord_of_isNumberChar (by decide) (List.all_eq_true.mp (by decide))

/-- A value is written as the text it was read from, or as a word. -/
theorem write_of_read (flat : codec.IsFlat) (proper : codec.Proper) (read : codec.read raw = .ok v)
    (written : codec.write v = .ok text) : text = raw ∨ IsWord text := by
  cases codec with
  | list item => exact flat.elim
  | boolean =>
    obtain rfl := Except.ok.inj written
    right
    split <;> exact isWord_of_all (by decide) (by decide)
  | integer width =>
    obtain ⟨n, rfl, _⟩ := readInteger_eq_ok read
    obtain rfl := Except.ok.inj written
    exact .inr (isWord_toString n)
  | real width =>
    obtain ⟨x, rfl⟩ := readReal_eq_ok read
    obtain rfl := Except.ok.inj written
    exact .inr (isWord_text x)
  | text =>
    obtain rfl := Except.ok.inj read
    exact .inl (Except.ok.inj written).symm
  | enumeration e =>
    obtain ⟨t, tagRead, rfl⟩ := map_eq_ok_iff.mp read
    have tagWritten : e.toText t = .ok text := written
    obtain ⟨_, own⟩ := Enumeration.ofText_eq_ok proper tagRead
    by_cases isUnknown : t = Enumeration.unknown
    · subst isUnknown
      rw [Enumeration.toText_unknown proper tagWritten]
      exact .inr isWord_unknown
    · exact .inl (own isUnknown text tagWritten)

theorem write_zero (flat : codec.IsFlat) (proper : codec.Proper)
    (written : codec.write codec.zero = .ok text) : text = "" ∨ IsWord text := by
  cases codec with
  | list item => exact flat.elim
  | boolean =>
    obtain rfl := Except.ok.inj written
    exact .inr (isWord_of_all (by decide) (by decide))
  | integer width =>
    obtain rfl := Except.ok.inj written
    exact .inr (isWord_toString 0)
  | real width =>
    obtain rfl := Except.ok.inj written
    exact .inr (isWord_text .zero)
  | text => exact .inl (Except.ok.inj written).symm
  | enumeration e =>
    have tagWritten : e.toText Enumeration.unknown = .ok text := written
    rw [Enumeration.toText_unknown proper tagWritten]
    exact .inr isWord_unknown

theorem legible_of_written (flat : codec.IsFlat) (proper : codec.Proper) (yields : codec.Yields v)
    (written : codec.write v = .ok text) : Legible text.toList := by
  rcases yields with rfl | ⟨raw, legible, read⟩
  · rcases write_zero flat proper written with rfl | word
    · simp [Legible]
    · exact word.fit
  · rcases write_of_read flat proper read written with rfl | word
    · exact legible
    · exact word.fit

theorem boolean_of_yields (yields : Codec.boolean.Yields v) : ∃ b, v = .boolean b := by
  rcases yields with rfl | ⟨raw, _, read⟩
  · exact ⟨false, rfl⟩
  · exact ⟨_, (Except.ok.inj read).symm⟩

theorem integer_of_yields {width : IntegerWidth} (yields : (Codec.integer width).Yields v) :
    ∃ n, v = .integer n ∧ width.least ≤ n ∧ n ≤ width.greatest := by
  rcases yields with rfl | ⟨raw, _, read⟩
  · exact ⟨0, rfl, by cases width <;> decide, by cases width <;> decide⟩
  · exact readInteger_eq_ok read

theorem real_of_yields {width : RealWidth} (yields : (Codec.real width).Yields v) :
    ∃ x, v = .real x := by
  rcases yields with rfl | ⟨raw, _, read⟩
  · exact ⟨_, rfl⟩
  · exact readReal_eq_ok read

theorem text_of_yields (yields : Codec.text.Yields v) : ∃ s, v = .text s := by
  rcases yields with rfl | ⟨raw, _, read⟩
  · exact ⟨_, rfl⟩
  · exact ⟨_, (Except.ok.inj read).symm⟩

theorem tag_of_yields {e : Enumeration} (yields : (Codec.enumeration e).Yields v) :
    ∃ t, v = .tag e t ∧ (t = Enumeration.unknown ∨ ∃ raw, e.ofText raw = .ok t) := by
  rcases yields with rfl | ⟨raw, _, read⟩
  · exact ⟨_, rfl, .inl rfl⟩
  · obtain ⟨t, tagRead, rfl⟩ := map_eq_ok_iff.mp read
    exact ⟨t, rfl, .inr ⟨raw, tagRead⟩⟩

theorem exists_text_of_flat (flat : codec.IsFlat) (proper : codec.Proper) (yields : codec.Yields v)
    (exact' : v.Exact) (keeps : codec.Keeps v) :
    ∃ text, codec.write v = .ok text ∧ codec.read text = .ok v := by
  cases codec with
  | list item => exact flat.elim
  | boolean =>
    obtain ⟨b, rfl⟩ := boolean_of_yields yields
    refine ⟨_, rfl, ?_⟩
    cases b <;> rfl
  | integer width =>
    obtain ⟨n, rfl, least, greatest⟩ := integer_of_yields yields
    exact ⟨_, rfl, readInteger_toString least greatest⟩
  | real width =>
    obtain ⟨x, rfl⟩ := real_of_yields yields
    refine ⟨_, rfl, ?_⟩
    rw [read, readReal, exact' x (by simp [Value.reals])]
  | text =>
    obtain ⟨s, rfl⟩ := text_of_yields yields
    exact ⟨_, rfl, rfl⟩
  | enumeration e =>
    obtain ⟨t, rfl, known⟩ := tag_of_yields yields
    obtain ⟨text, written, unknown⟩ := keeps
    refine ⟨text, written, map_eq_ok_iff.mpr ⟨t, ?_, rfl⟩⟩
    by_cases isUnknown : t = Enumeration.unknown
    · exact unknown isUnknown
    · rcases known with same | ⟨raw, tagRead⟩
      · exact absurd same isUnknown
      · rw [(Enumeration.ofText_eq_ok proper tagRead).2 isUnknown text written]
        exact tagRead

theorem keeps_of_same (flat : codec.IsFlat) (proper : codec.Proper) (yields : codec.Yields v)
    (written : codec.write v = .ok text) (read : text ≠ "" → codec.read text = .ok w)
    (same : Value.same w v = true) : codec.Keeps v := by
  cases codec with
  | list item => exact flat.elim
  | boolean => cases v <;> trivial
  | integer width => cases v <;> trivial
  | real width => cases v <;> trivial
  | text => cases v <;> trivial
  | enumeration e =>
    obtain ⟨t, rfl, _⟩ := tag_of_yields yields
    have tagWritten : e.toText t = .ok text := written
    refine ⟨text, tagWritten, ?_⟩
    rintro rfl
    have isText := Enumeration.toText_unknown proper tagWritten
    obtain ⟨u, tagRead, rfl⟩ := map_eq_ok_iff.mp (read (by rw [isText]; decide))
    have sameNumber : u.number = Enumeration.unknown.number := by
      simpa [Value.same, Value.numeric?, Value.sameNumber] using same
    rw [Enumeration.eq_of_number (Enumeration.ofText_eq_ok proper tagRead).1 e.unknown_mem
      sameNumber] at tagRead
    exact tagRead

/-- A text with a carriage return does not denote the same value once its line ends are read. -/
theorem not_same_of_return (flat : codec.IsFlat) (proper : codec.Proper) (yields : codec.Yields v)
    (written : codec.write v = .ok text) (hasReturn : '\r' ∈ text.toList)
    (read : codec.read (String.ofList (normalizeLines false text.toList)) = .ok w) :
    ¬ Value.same w v = true := by
  have notWord : ¬ IsWord text := fun word => word.no_return hasReturn
  have isRaw : ∃ raw, codec.read raw = .ok v ∧ text = raw := by
    rcases yields with rfl | ⟨raw, _, isRead⟩
    · rcases write_zero flat proper written with rfl | word
      · cases hasReturn
      · exact absurd word notWord
    · rcases write_of_read flat proper isRead written with same | word
      · exact ⟨raw, isRead, same⟩
      · exact absurd word notWord
  obtain ⟨raw, isRead, rfl⟩ := isRaw
  have other : String.ofList (normalizeLines false text.toList) ≠ text := by
    intro same
    have back := congrArg String.toList same
    rw [String.toList_ofList] at back
    rw [← back] at hasReturn
    exact return_not_mem_normalizeLines false _ hasReturn
  cases codec with
  | list item => exact flat.elim
  | boolean =>
    obtain rfl := Except.ok.inj isRead
    have isWord : text = if (Value.boolean (text == "true")).isTruthy then "true" else "false" :=
      (Except.ok.inj written).symm
    rw [isWord] at hasReturn
    split at hasReturn <;> exact absurd hasReturn (by decide)
  | integer width =>
    obtain ⟨n, rfl, _⟩ := readInteger_eq_ok isRead
    have isWord : toString n = text := Except.ok.inj written
    exact absurd (isWord ▸ isWord_toString n) notWord
  | real width =>
    obtain ⟨x, rfl⟩ := readReal_eq_ok isRead
    have isWord : x.text = text := Except.ok.inj written
    exact absurd (isWord ▸ isWord_text x) notWord
  | text =>
    obtain rfl := Except.ok.inj isRead
    obtain rfl := Except.ok.inj read
    simpa [Value.same] using other
  | enumeration e =>
    obtain ⟨t, tagRead, rfl⟩ := map_eq_ok_iff.mp isRead
    obtain ⟨u, tagReadBack, rfl⟩ := map_eq_ok_iff.mp read
    intro same
    have tagWritten : e.toText t = .ok text := written
    have sameNumber : u.number = t.number := by
      simpa [Value.same, Value.numeric?, Value.sameNumber] using same
    have isTag : u = t := Enumeration.eq_of_number (Enumeration.ofText_eq_ok proper tagReadBack).1
      (Enumeration.ofText_eq_ok proper tagRead).1 sameNumber
    subst isTag
    by_cases isUnknown : u = Enumeration.unknown
    · subst isUnknown
      rw [Enumeration.toText_unknown proper tagWritten] at notWord
      exact notWord isWord_unknown
    · exact other ((Enumeration.ofText_eq_ok proper tagReadBack).2 isUnknown text tagWritten).symm

end Codec

/-! ### Lists -/

/-- A token: some characters, none of them a blank of XML. Other blanks count as characters of tokens. -/
def IsToken (text : String) : Prop := IsPiece isXmlBlank text.toList

instance (text : String) : Decidable (IsToken text) :=
  inferInstanceAs (Decidable (IsPiece isXmlBlank text.toList))

theorem tokens_joined {texts : List String} (allTokens : ∀ text ∈ texts, IsToken text) :
    tokens (" ".intercalate texts) = texts := by
  have space : " ".toList = [' '] := rfl
  have laid := @laidOut_intercalate isXmlBlank (texts.map String.toList) ' ' (by decide)
    (List.forall_mem_map.mpr allTokens)
  rw [tokens, String.toList_intercalate, space, laid.pieces_eq, List.map_map]
  exact List.map_id'' (fun _ => String.ofList_toList) texts

theorem IsWord.isToken {text : String} (word : IsWord text) : IsToken text :=
  ⟨by simpa using word.nonempty, word.solid⟩

theorem tokens_intercalate {texts : List String} (words : ∀ text ∈ texts, IsWord text) :
    tokens (" ".intercalate texts) = texts :=
  tokens_joined fun text member => (words text member).isToken

theorem isWord_of_mem_tokens {raw text : String} (legible : Legible raw.toList)
    (member : text ∈ tokens raw) : IsWord text := by
  obtain ⟨part, inside, rfl⟩ := List.mem_map.mp member
  have laid := laidOut_pieces isXmlBlank raw.toList
  obtain ⟨nonempty, solid⟩ := laid.isPiece part inside
  refine ⟨by simpa using nonempty, ?_, fun c here => legible c ?_⟩
  · rwa [String.toList_ofList]
  · rw [String.toList_ofList] at here
    have among := List.mem_flatten_of_mem inside here
    rw [laid.flatten_eq] at among
    exact List.mem_of_mem_filter among

namespace Codec

variable {item : Codec} {v w : Value} {raw text : String}

theorem items_of_yields (yields : (Codec.list item).Yields v) :
    ∃ items, v = .list items ∧ ∀ i ∈ items, ∃ word, IsWord word ∧ item.read word = .ok i := by
  rcases yields with rfl | ⟨raw, legible, read⟩
  · exact ⟨[], rfl, by simp⟩
  · obtain ⟨items, readItems, rfl⟩ := map_eq_ok_iff.mp read
    refine ⟨items, rfl, ?_⟩
    intro i member
    obtain ⟨word, listed, readItem⟩ := exists_of_forall₂_left (mapM_eq_ok_iff.mp readItems).flip member
    exact ⟨word, isWord_of_mem_tokens legible listed, readItem⟩

theorem write_list_iff {items : List Value} :
    (Codec.list item).write (.list items) = .ok text ↔
      ∃ texts, List.Forall₂ (fun i text => item.write i = .ok text) items texts ∧
        text = " ".intercalate texts := by
  simp only [write, itemsOf, bind_eq_ok_iff, Except.ok.injEq, exists_eq_left', mapM_eq_ok_iff, pure,
    Except.pure]
  exact exists_congr fun texts => and_congr_right fun _ => eq_comm

theorem eq_empty_of_write_nil (written : (Codec.list item).write (.list []) = .ok text) :
    text = "" := by
  obtain ⟨texts, none, rfl⟩ := write_list_iff.mp written
  rw [List.forall₂_nil_left_iff.mp none, String.intercalate_nil]

theorem words_of_write (flat : item.IsFlat) (proper : item.Proper) {items : List Value}
    (fromWords : ∀ i ∈ items, ∃ word, IsWord word ∧ item.read word = .ok i) {texts : List String}
    (written : List.Forall₂ (fun i text => item.write i = .ok text) items texts) :
    ∀ text ∈ texts, IsWord text := by
  intro text member
  obtain ⟨i, listed, writes⟩ := exists_of_forall₂_left written.flip member
  obtain ⟨word, isWord, read⟩ := fromWords i listed
  rcases write_of_read flat proper read writes with rfl | wrote
  · exact isWord
  · exact wrote

theorem read_list_intercalate {texts : List String} (words : ∀ text ∈ texts, IsWord text) :
    (Codec.list item).read (" ".intercalate texts) = .ok v ↔
      ∃ items, List.Forall₂ (fun text i => item.read text = .ok i) texts items ∧ v = .list items := by
  rw [read, tokens_intercalate words, map_eq_ok_iff]
  simp only [mapM_eq_ok_iff]
  exact exists_congr fun items => and_congr_right fun _ => eq_comm

theorem intercalate_ne_empty {texts : List String} (nonempty : texts ≠ [])
    (words : ∀ text ∈ texts, IsWord text) : " ".intercalate texts ≠ "" := by
  intro empty
  have same := tokens_intercalate words
  rw [empty] at same
  exact nonempty same.symm

end Codec

/-! ### All values -/

namespace Codec

variable {codec : Codec} {v w : Value} {raw text : String}

theorem flat_or_list (codec : Codec) : codec.IsFlat ∨ ∃ item, codec = .list item := by
  cases codec with
  | list item => exact .inr ⟨item, rfl⟩
  | _ => exact .inl trivial

theorem exists_text (proper : codec.Proper) (yields : codec.Yields v) (exact' : v.Exact)
    (keeps : codec.Keeps v) :
    ∃ text, codec.write v = .ok text ∧ codec.read text = .ok v := by
  rcases codec.flat_or_list with flat | ⟨item, rfl⟩
  · exact exists_text_of_flat flat proper yields exact' keeps
  · obtain ⟨flat, properItem⟩ := proper
    obtain ⟨items, rfl, fromWords⟩ := items_of_yields yields
    have each : ∀ i ∈ items, ∃ text, item.write i = .ok text ∧ item.read text = .ok i := by
      intro i member
      obtain ⟨word, isWord, read⟩ := fromWords i member
      exact exists_text_of_flat flat properItem (.inr ⟨word, isWord.fit, read⟩)
        (fun x inside => exact' x (mem_realsOfAll member inside)) (keeps i member)
    obtain ⟨texts, related⟩ := exists_forall₂_iff.mpr each
    have written := related.imp fun _ _ both => both.1
    have words := words_of_write flat properItem fromWords written
    refine ⟨" ".intercalate texts, write_list_iff.mpr ⟨texts, written, rfl⟩,
      (read_list_intercalate words).mpr ⟨items, ?_, rfl⟩⟩
    exact (related.imp fun _ _ both => both.2).flip

theorem exists_item_of_yields_nil (yields : codec.Yields (.list [])) : ∃ item, codec = .list item := by
  cases codec with
  | list item => exact ⟨item, rfl⟩
  | boolean =>
    obtain ⟨b, other⟩ := boolean_of_yields yields
    cases other
  | integer width =>
    obtain ⟨n, other, _⟩ := integer_of_yields yields
    cases other
  | real width =>
    obtain ⟨x, other⟩ := real_of_yields yields
    cases other
  | text =>
    obtain ⟨s, other⟩ := text_of_yields yields
    cases other
  | enumeration e =>
    obtain ⟨t, other, _⟩ := tag_of_yields yields
    cases other

theorem legible_of_write (proper : codec.Proper) (yields : codec.Yields v)
    (written : codec.write v = .ok text) : Legible text.toList := by
  rcases codec.flat_or_list with flat | ⟨item, rfl⟩
  · exact legible_of_written flat proper yields written
  · obtain ⟨flat, properItem⟩ := proper
    obtain ⟨items, rfl, fromWords⟩ := items_of_yields yields
    obtain ⟨texts, writes, rfl⟩ := write_list_iff.mp written
    have words := words_of_write flat properItem fromWords writes
    rw [String.toList_intercalate]
    refine legible_intercalate (legible_of_all (by decide)) fun part member => ?_
    obtain ⟨text, inside, rfl⟩ := List.mem_map.mp member
    exact (words text inside).fit

theorem ne_empty_of_read (proper : codec.Proper) (legible : Legible raw.toList) (given : raw ≠ "")
    (read : codec.read raw = .ok v) (written : codec.write v = .ok text) (other : v ≠ .list []) :
    text ≠ "" := by
  rcases codec.flat_or_list with flat | ⟨item, rfl⟩
  · rcases write_of_read flat proper read written with rfl | word
    · exact given
    · exact word.nonempty
  · obtain ⟨flat, properItem⟩ := proper
    obtain ⟨items, rfl, fromWords⟩ := items_of_yields (.inr ⟨raw, legible, read⟩)
    obtain ⟨texts, writes, rfl⟩ := write_list_iff.mp written
    apply intercalate_ne_empty _ (words_of_write flat properItem fromWords writes)
    rintro rfl
    rw [List.forall₂_nil_right_iff] at writes
    exact other (congrArg Value.list writes)

theorem keeps_of_read (proper : codec.Proper) (yields : codec.Yields v)
    (written : codec.write v = .ok text) (read : text ≠ "" → codec.read text = .ok w)
    (same : Value.same w v = true) : codec.Keeps v := by
  rcases codec.flat_or_list with flat | ⟨item, rfl⟩
  · exact keeps_of_same flat proper yields written read same
  · obtain ⟨flat, properItem⟩ := proper
    obtain ⟨items, rfl, fromWords⟩ := items_of_yields yields
    obtain ⟨texts, writes, rfl⟩ := write_list_iff.mp written
    have words := words_of_write flat properItem fromWords writes
    intro i member
    have some : texts ≠ [] := by
      rintro rfl
      rw [List.forall₂_nil_right_iff] at writes
      rw [writes] at member
      cases member
    obtain ⟨others, reads, rfl⟩ :=
      (read_list_intercalate words).mp (read (intercalate_ne_empty some words))
    have equal : List.Forall₂ (fun v w => Value.same v w = true) others items :=
      sameItems_iff.mp (by simpa [Value.same] using same)
    obtain ⟨text, other, wrote, read, sameItem⟩ := exists_of_forall₂_round writes reads equal member
    obtain ⟨word, isWord, readWord⟩ := fromWords i member
    exact keeps_of_same flat properItem (.inr ⟨word, isWord.fit, readWord⟩) wrote (fun _ => read)
      sameItem

end Codec

end XmlRecords
