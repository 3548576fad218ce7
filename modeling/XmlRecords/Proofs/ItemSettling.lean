import XmlRecords.Proofs.ItemReadBack

/-!
Items of simple type written and read twice: which items have a text that gives an item again, and
that the text of the second item stays as it is from then on.
-/

set_option autoImplicit false
set_option relaxedAutoImplicit false

namespace XmlRecords

open Number Text Xml

/-! ### Texts that stay -/

def Number.Binary64.Repeats (x : Binary64) : Prop :=
  ∃ y, realOfText? x.text = some y ∧ y.text = x.text

/-- The text of every floating point number in a value denotes a number of the same text. -/
def Value.Repeats (v : Value) : Prop := ∀ x ∈ v.reals, x.Repeats

theorem Value.Repeats.of_mem {items : List Value} (numbers : (Value.list items).Repeats) {v : Value}
    (member : v ∈ items) : v.Repeats :=
  fun x inside => numbers x (by rw [Value.reals]; exact mem_realsOfAll member inside)

theorem Value.repeats_list {items : List Value} (each : ∀ v ∈ items, v.Repeats) :
    (Value.list items).Repeats := by
  intro x inside
  rw [Value.reals] at inside
  induction items with
  | nil => cases inside
  | cons v items ih =>
    obtain ⟨own, others⟩ := List.forall_mem_cons.mp each
    rcases List.mem_append.mp inside with here | below
    · exact own x here
    · exact ih others below

/-- The conversions of an enumeration always succeed. -/
structure Enumeration.Total (e : Enumeration) : Prop where
  toText : ∀ tag, ∃ text, e.toText tag = .ok text
  ofText : ∀ text, ∃ tag, e.ofText text = .ok tag

namespace Enumeration

variable {e : Enumeration}

theorem exists_toText {t : Tag} {text : String} (written : e.toText t = .ok text) (u : Tag) :
    ∃ text, e.toText u = .ok text := by
  unfold toText at written ⊢
  split at written
  · cases written
  · rename_i shown
    rw [if_neg shown]
    split
    · exact ⟨_, rfl⟩
    · exact ⟨_, rfl⟩

theorem exists_ofText {t : Tag} {raw : String} (read : e.ofText raw = .ok t) (text : String) :
    ∃ tag, e.ofText text = .ok tag := by
  unfold ofText at read ⊢
  split at read
  · cases read
  · rename_i shown
    rw [if_neg shown]
    split at read
    · cases read
    · split
      · exact ⟨_, rfl⟩
      · exact ⟨_, rfl⟩

theorem toText_of_ofText (distinct : e.Distinct) (total : e.Total) {t u : Tag} {text : String}
    (yields : t = unknown ∨ ∃ raw, e.ofText raw = .ok t) (written : e.toText t = .ok text)
    (read : e.ofText text = .ok u) : e.toText u = .ok text := by
  obtain ⟨text', written'⟩ := total.toText u
  by_cases isUnknown : u = unknown
  · subst isUnknown
    have known : t = unknown := by
      rcases yields with isUnknown | ⟨raw, readRaw⟩
      · exact isUnknown
      · by_contra other
        have isRaw := (ofText_eq_ok distinct readRaw).2 other text written
        rw [isRaw, readRaw] at read
        exact other (Except.ok.inj read)
    rw [← known]
    exact written
  · rw [← (ofText_eq_ok distinct read).2 isUnknown text' written']
    exact written'

end Enumeration

/-- The conversions of a type of single values never fail on its own texts. -/
def Codec.Total : Codec → Prop
  | .enumeration e => e.Total
  | _ => True

/-- The conversions that a value needs never fail; an empty list needs none. -/
def Codec.Settles : Codec → Value → Prop
  | .list item, .list (_ :: _) => item.Total
  | .list _, _ => True
  | codec, _ => codec.Total

namespace Codec

variable {codec item : Codec} {v w : Value} {text : String}

/-- A value has a text, which gives a value again, also once line ends are normalized. The text given
as it was is that of the second value. -/
theorem exists_again_of_flat (flat : codec.IsFlat) (proper : codec.Proper) (yields : codec.Yields v)
    (total : codec.Total) (numbers : v.Repeats) :
    ∃ text, codec.write v = .ok text ∧
      ∀ again, again = text ∨ again = String.ofList (normalizeLines false text.toList) →
        ∃ w, codec.read again = .ok w ∧ w.Repeats ∧ (again = text → codec.write w = .ok text) := by
  have ofWord {text : String} (word : IsWord text) (written : codec.write v = .ok text)
      (back : ∃ w, codec.read text = .ok w ∧ w.Repeats ∧ codec.write w = .ok text) :
      ∃ text, codec.write v = .ok text ∧
        ∀ again, again = text ∨ again = String.ofList (normalizeLines false text.toList) →
          ∃ w, codec.read again = .ok w ∧ w.Repeats ∧ (again = text → codec.write w = .ok text) := by
    refine ⟨text, written, fun again given => ?_⟩
    have same : again = text := given.elim id (·.trans (normalized_of_plain word.no_return))
    obtain ⟨w, read, repeats, wrote⟩ := back
    exact ⟨w, same ▸ read, repeats, fun _ => wrote⟩
  cases codec with
  | list item => exact flat.elim
  | boolean =>
    obtain ⟨b, rfl⟩ := boolean_of_yields yields
    cases b with
    | true => exact ofWord (isWord_of_all (by decide) (by decide)) rfl ⟨.boolean true, rfl, numbers, rfl⟩
    | false =>
      exact ofWord (isWord_of_all (by decide) (by decide)) rfl ⟨.boolean false, rfl, numbers, rfl⟩
  | integer width =>
    obtain ⟨n, rfl, least, greatest⟩ := integer_of_yields yields
    exact ofWord (isWord_toString n) rfl ⟨.integer n, readInteger_toString least greatest, numbers, rfl⟩
  | real width =>
    obtain ⟨x, rfl⟩ := real_of_yields yields
    obtain ⟨y, read, same⟩ := numbers x (by simp [Value.reals])
    refine ofWord (isWord_text x) rfl ⟨.real y, by simp only [Codec.read, readReal, read], ?_, ?_⟩
    · intro z isReal
      rw [Value.reals, List.mem_singleton] at isReal
      rw [isReal]
      exact ⟨y, by rw [same]; exact read, rfl⟩
    · rw [← same]
      rfl
  | text =>
    obtain ⟨s, rfl⟩ := text_of_yields yields
    refine ⟨s, rfl, fun again _ => ⟨.text again, rfl, by simp [Value.Repeats, Value.reals], ?_⟩⟩
    rintro rfl
    rfl
  | enumeration e =>
    obtain ⟨t, rfl, known⟩ := tag_of_yields yields
    obtain ⟨text, written⟩ := total.toText t
    refine ⟨text, written, fun again _ => ?_⟩
    obtain ⟨u, read⟩ := total.ofText again
    refine ⟨.tag e u, map_eq_ok_iff.mpr ⟨u, read, rfl⟩, by simp [Value.Repeats, Value.reals], ?_⟩
    rintro rfl
    exact Enumeration.toText_of_ofText proper total known written read

theorem settles_iff_total (flat : codec.IsFlat) : codec.Settles v ↔ codec.Total := by
  cases codec with
  | list item => exact flat.elim
  | _ => exact Iff.rfl

theorem settles_of_total (total : item.Total) (v : Value) : (Codec.list item).Settles v := by
  cases v with
  | list items =>
    cases items with
    | nil => trivial
    | cons i items => exact total
  | _ => trivial

theorem exists_again_of_list (flat : item.IsFlat) (proper : item.Proper) {items : List Value}
    (fromWords : ∀ i ∈ items, ∃ word, IsWord word ∧ item.read word = .ok i)
    (total : items ≠ [] → item.Total) (numbers : (Value.list items).Repeats) :
    ∃ text, (Codec.list item).write (.list items) = .ok text ∧
      ∃ w, (Codec.list item).read text = .ok w ∧ w.Repeats ∧ (Codec.list item).write w = .ok text := by
  have each : ∀ i ∈ items, ∃ pair : String × Value, item.write i = .ok pair.1 ∧
      item.read pair.1 = .ok pair.2 ∧ pair.2.Repeats ∧ item.write pair.2 = .ok pair.1 := by
    intro i member
    obtain ⟨word, isWord, read⟩ := fromWords i member
    obtain ⟨text, written, again⟩ := exists_again_of_flat flat proper (.inr ⟨word, isWord.fit, read⟩)
      (total (List.ne_nil_of_mem member)) (numbers.of_mem member)
    obtain ⟨w, back, repeats, wrote⟩ := again text (.inl rfl)
    exact ⟨(text, w), written, back, repeats, wrote rfl⟩
  obtain ⟨pairs, related⟩ := exists_forall₂_iff.mpr each
  have written : List.Forall₂ (fun i text => item.write i = .ok text) items (pairs.map (·.1)) :=
    List.forall₂_map_right_iff.mpr (related.imp fun _ _ all => all.1)
  have words := words_of_write flat proper fromWords written
  have self {R : String × Value → Prop} (holds : ∀ i pair, item.write i = .ok pair.1 ∧
      item.read pair.1 = .ok pair.2 ∧ pair.2.Repeats ∧ item.write pair.2 = .ok pair.1 → R pair) :
      ∀ pair ∈ pairs, R pair := by
    intro pair member
    obtain ⟨i, _, all⟩ := exists_of_forall₂_left related.flip member
    exact holds i pair all
  refine ⟨" ".intercalate (pairs.map (·.1)), write_list_iff.mpr ⟨_, written, rfl⟩,
    .list (pairs.map (·.2)), ?_, ?_, ?_⟩
  · refine (read_list_intercalate words).mpr ⟨pairs.map (·.2), ?_, rfl⟩
    rw [List.forall₂_map_left_iff, List.forall₂_map_right_iff, List.forall₂_same]
    exact self fun _ _ all => all.2.1
  · exact Value.repeats_list (List.forall_mem_map.mpr (self fun _ _ all => all.2.2.1))
  · refine write_list_iff.mpr ⟨_, ?_, rfl⟩
    rw [List.forall₂_map_left_iff, List.forall₂_map_right_iff, List.forall₂_same]
    exact self fun _ _ all => all.2.2.2

theorem repeats_zero (codec : Codec) : codec.zero.Repeats := by
  cases codec with
  | real width =>
    intro x isZero
    rw [zero, Value.reals, List.mem_singleton] at isZero
    rw [isZero]
    exact ⟨.zero, by decide +kernel, rfl⟩
  | _ => simp [zero, Value.Repeats, Value.reals, Value.realsOfAll]

theorem exists_again (proper : codec.Proper) (yields : codec.Yields v) (settles : codec.Settles v)
    (numbers : v.Repeats) :
    ∃ text, codec.write v = .ok text ∧
      ∃ w, codec.read text = .ok w ∧ w.Repeats ∧ codec.write w = .ok text := by
  rcases codec.flat_or_list with flat | ⟨item, rfl⟩
  · obtain ⟨text, written, again⟩ :=
      exists_again_of_flat flat proper yields ((settles_iff_total flat).mp settles) numbers
    obtain ⟨w, read, repeats, wrote⟩ := again text (.inl rfl)
    exact ⟨text, written, w, read, repeats, wrote rfl⟩
  · obtain ⟨items, rfl, fromWords⟩ := items_of_yields yields
    refine exists_again_of_list proper.1 proper.2 fromWords (fun nonempty => ?_) numbers
    cases items with
    | nil => exact absurd rfl nonempty
    | cons i items => exact settles

theorem ne_absent_of_yields (yields : codec.Yields v) : v ≠ .absent := by
  rintro rfl
  cases codec with
  | boolean =>
    obtain ⟨b, other⟩ := boolean_of_yields yields
    cases other
  | integer width =>
    obtain ⟨n, other, _⟩ := integer_of_yields yields
    cases other
  | real width =>
    obtain ⟨x, other⟩ := real_of_yields yields
    cases other
  | text =>
    obtain ⟨s, other⟩ := text_of_yields yields
    cases other
  | enumeration e =>
    obtain ⟨t, other, _⟩ := tag_of_yields yields
    cases other
  | list item =>
    obtain ⟨items, other, _⟩ := items_of_yields yields
    cases other

theorem ne_nil_of_read (proper : codec.Proper) (yields : codec.Yields v)
    (written : codec.write v = .ok text) (nonempty : text ≠ "") (read : codec.read text = .ok w) :
    w ≠ .list [] := by
  rintro rfl
  have legible := legible_of_write proper yields written
  obtain ⟨item, rfl⟩ := exists_item_of_yields_nil (.inr ⟨text, legible, read⟩)
  obtain ⟨items, rfl, fromWords⟩ := items_of_yields yields
  obtain ⟨texts, writes, rfl⟩ := write_list_iff.mp written
  obtain ⟨others, reads, same⟩ :=
    (read_list_intercalate (words_of_write proper.1 proper.2 fromWords writes)).mp read
  rw [← Value.list.inj same, List.forall₂_nil_right_iff] at reads
  rw [reads] at nonempty
  exact nonempty rfl

theorem total_of_read {raw : String} (flat : codec.IsFlat) (read : codec.read raw = .ok v)
    (written : codec.write v = .ok text) : codec.Total := by
  cases codec with
  | list item => exact flat.elim
  | enumeration e =>
    obtain ⟨t, tagRead, rfl⟩ := map_eq_ok_iff.mp read
    exact ⟨Enumeration.exists_toText written, Enumeration.exists_ofText tagRead⟩
  | _ => trivial

theorem total_of_written_zero (proper : codec.Proper) (written : codec.write codec.zero = .ok text)
    (read : text ≠ "" → ∃ raw w, codec.read raw = .ok w) : codec.Total := by
  cases codec with
  | enumeration e =>
    have tagWritten : e.toText Enumeration.unknown = .ok text := written
    have isText := Enumeration.toText_unknown proper tagWritten
    obtain ⟨raw, w, isRead⟩ := read (by rw [isText]; decide)
    obtain ⟨t, tagRead, _⟩ := map_eq_ok_iff.mp isRead
    exact ⟨Enumeration.exists_toText tagWritten, Enumeration.exists_ofText tagRead⟩
  | _ => trivial

theorem settles_of_written_list (proper : (Codec.list item).Proper)
    (yields : (Codec.list item).Yields v) (written : (Codec.list item).write v = .ok text) :
    (Codec.list item).Settles v := by
  obtain ⟨items, rfl, fromWords⟩ := items_of_yields yields
  cases items with
  | nil => trivial
  | cons i items =>
    obtain ⟨texts, writes, _⟩ := write_list_iff.mp written
    obtain ⟨text, _, wrote, _, _⟩ := List.forall₂_cons_left_iff.mp writes
    obtain ⟨word, _, read⟩ := fromWords i List.mem_cons_self
    exact total_of_read proper.1 read wrote

end Codec

/-! ### Items -/

namespace Field

/-- An item that documents may give to a field, and what is known of the field. -/
structure Ready (f : Field) (codec : Codec) (v : Value) : Prop where
  simple : f.codec? = some codec
  proper : codec.Proper
  flat : f.key.isAttribute = false → codec.IsFlat
  single : f.key.isAttribute = true → f.key.occurrence ≠ .repeated
  plain : f.key.isAttribute = false → f.default = .absent
  default : f.default = .absent ∨ ∃ text, Legible text.toList ∧ codec.read text = .ok f.default
  defaultNumbers : f.default.Repeats
  given : f.Given codec v
  numbers : v.Repeats

/-- The conversions that an item needs never fail; an empty list needs those of what its field holds
when nothing is given, which takes its place. -/
structure Settles (f : Field) (codec : Codec) (v : Value) : Prop where
  own : codec.Settles v
  filled : v = .list [] → ∀ w, f.initial = .ok w → codec.Settles w

def Rereads (f : Field) (codec : Codec) (v w : Value) : Prop :=
  ∃ text, codec.write v = .ok text ∧ f.TextOf codec (f.carried text) w

def Steady (f : Field) (codec : Codec) (v : Value) : Prop :=
  ∃ text w, codec.write v = .ok text ∧ f.TextOf codec (f.carried text) w ∧
    codec.write w = .ok text ∧ (f.key.occurrence = .optional → w ≠ .absent)

variable {f : Field} {codec : Codec} {v w u : Value} {raw text : String}

theorem TextOf.unique (hv : f.TextOf codec raw v) (hw : f.TextOf codec raw w) : v = w := by
  unfold TextOf at hv hw
  split at hv
  · rename_i empty
    rw [if_pos empty] at hw
    split at hv
    · rename_i repeated
      rw [if_pos repeated] at hw
      rw [hv, hw]
    · rename_i single
      rw [if_neg single] at hw
      exact Except.ok.inj (hv.symm.trans hw)
  · rename_i nonempty
    rw [if_neg nonempty] at hw
    exact Except.ok.inj (hv.symm.trans hw)

theorem Rereads.unique (hv : f.Rereads codec u v) (hw : f.Rereads codec u w) : v = w := by
  obtain ⟨text, written, isItem⟩ := hv
  obtain ⟨text', written', isItem'⟩ := hw
  obtain rfl := Except.ok.inj (written.symm.trans written')
  exact isItem.unique isItem'

theorem exists_initial (simple : f.codec? = some codec) : ∃ v, f.initial = .ok v := by
  cases f with
  | nested key inner default => cases simple
  | simple key codec' default =>
    simp only [initial, Field.key, Field.default, zero, FieldKey.initial]
    cases key.occurrence with
    | repeated => exact ⟨_, rfl⟩
    | optional => exact ⟨_, rfl⟩
    | once => cases default <;> exact ⟨_, rfl⟩

theorem legible_carried (f : Field) (legible : Legible text.toList) :
    Legible (f.carried text).toList := by
  unfold carried
  split
  · exact legible
  · rw [String.toList_ofList]
    exact all_normalizeLines legible false

theorem Ready.yields (ready : f.Ready codec v) : codec.Yields v :=
  yields_of_given ready.simple ready.default ready.given

theorem Ready.list_or_flat (ready : f.Ready codec v) :
    codec.IsFlat ∨ f.key.isAttribute = true ∧ ∃ item, codec = .list item := by
  rcases codec.flat_or_list with flat | isList
  · exact .inl flat
  · cases isAttribute : f.key.isAttribute with
    | true => exact .inr ⟨rfl, isList⟩
    | false => exact .inl (ready.flat isAttribute)

theorem Ready.of_empty (ready : f.Ready codec v) (isItem : f.TextOf codec "" w)
    (present : f.key.occurrence = .optional → w ≠ .absent) :
    w = codec.zero ∨ f.default = w ∧ w ≠ .absent := by
  rw [TextOf, if_pos rfl] at isItem
  split at isItem
  · exact .inl isItem
  · rename_i single
    rcases initial_eq_ok ready.simple single isItem with ⟨optional, absent⟩ | other
    · exact absurd absent (present optional)
    · exact other

/-- An item has a text, which gives an item where it is not empty; as long as line ends are kept, the
second item has the same text. -/
theorem Ready.exists_text (ready : f.Ready codec v) (settles : f.Settles codec v) :
    ∃ text, codec.write v = .ok text ∧ ∃ w, codec.read (f.carried text) = .ok w ∧ w.Repeats ∧
      (f.carried text = text → codec.write w = .ok text) := by
  rcases ready.list_or_flat with flat | ⟨isAttribute, _⟩
  · obtain ⟨text, written, again⟩ := Codec.exists_again_of_flat flat ready.proper ready.yields
      ((Codec.settles_iff_total flat).mp settles.own) ready.numbers
    exact ⟨text, written, again (f.carried text) (by unfold carried; split <;> simp)⟩
  · obtain ⟨text, written, w, read, repeats, wrote⟩ :=
      Codec.exists_again ready.proper ready.yields settles.own ready.numbers
    exact ⟨text, written, w, by rwa [carried, if_pos isAttribute], repeats, fun _ => wrote⟩

theorem Ready.exists_rereads (ready : f.Ready codec v) (settles : f.Settles codec v) :
    ∃ w, f.Rereads codec v w := by
  obtain ⟨text, written, w, read, _⟩ := ready.exists_text settles
  by_cases empty : f.carried text = ""
  · by_cases repeated : f.key.occurrence = .repeated
    · exact ⟨codec.zero, text, written, by rw [TextOf, if_pos empty, if_pos repeated]⟩
    · obtain ⟨w, filled⟩ := exists_initial ready.simple
      exact ⟨w, text, written, by rwa [TextOf, if_pos empty, if_neg repeated]⟩
  · exact ⟨w, text, written, by rwa [TextOf, if_neg empty]⟩

theorem Ready.rereads_ready (ready : f.Ready codec v) (settles : f.Settles codec v)
    (rereads : f.Rereads codec v w) (present : f.key.occurrence = .optional → w ≠ .absent) :
    f.Ready codec w := by
  obtain ⟨text, written, isItem⟩ := rereads
  have legible := f.legible_carried (Codec.legible_of_write ready.proper ready.yields written)
  refine ⟨ready.simple, ready.proper, ready.flat, ready.single, ready.plain, ready.default,
    ready.defaultNumbers, ⟨present, _, legible, isItem⟩, ?_⟩
  by_cases empty : f.carried text = ""
  · rw [empty] at isItem
    rcases ready.of_empty isItem present with isZero | ⟨isDefault, _⟩
    · rw [isZero]
      exact Codec.repeats_zero codec
    · rw [← isDefault]
      exact ready.defaultNumbers
  · obtain ⟨text', written', w', read, repeats, _⟩ := ready.exists_text settles
    obtain rfl := Except.ok.inj (written.symm.trans written')
    rw [TextOf, if_neg empty] at isItem
    obtain rfl := Except.ok.inj (isItem.symm.trans read)
    exact repeats

theorem Ready.rereads_settles (ready : f.Ready codec v) (settles : f.Settles codec v)
    (rereads : f.Rereads codec v w) : f.Settles codec w := by
  rcases ready.list_or_flat with flat | ⟨isAttribute, item, rfl⟩
  · have total := (Codec.settles_iff_total flat).mp settles.own
    exact ⟨(Codec.settles_iff_total flat).mpr total,
      fun _ _ _ => (Codec.settles_iff_total flat).mpr total⟩
  · obtain ⟨items, rfl, _⟩ := Codec.items_of_yields ready.yields
    cases items with
    | cons i items =>
      exact ⟨Codec.settles_of_total settles.own w, fun _ u _ => Codec.settles_of_total settles.own u⟩
    | nil =>
      -- the empty list has no text, so the field holds what it holds when nothing is given
      obtain ⟨text, written, isItem⟩ := rereads
      have empty := Codec.eq_empty_of_write_nil written
      rw [TextOf, if_pos ((f.carried_eq_empty_iff text).mpr empty),
        if_neg (ready.single isAttribute)] at isItem
      exact ⟨settles.filled rfl w isItem, fun _ => settles.filled rfl⟩

theorem Ready.carried_of_rereads (ready : f.Ready codec v) (rereads : f.Rereads codec v w)
    (present : f.key.occurrence = .optional → w ≠ .absent) (wrote : codec.write w = .ok text) :
    f.carried text = text := by
  obtain ⟨before, written, isItem⟩ := rereads
  apply carried_of_plain
  intro element
  have flat := ready.flat element
  by_cases empty : f.carried before = ""
  · rw [empty] at isItem
    rcases ready.of_empty isItem present with rfl | ⟨isDefault, other⟩
    · rcases Codec.write_zero flat ready.proper wrote with rfl | word
      · simp
      · exact word.no_return
    · exact absurd (isDefault.symm.trans (ready.plain element)) other
  · rw [TextOf, if_neg empty] at isItem
    rcases Codec.write_of_read flat ready.proper isItem wrote with rfl | word
    · rw [carried, if_neg (by simp [element]), String.toList_ofList]
      exact return_not_mem_normalizeLines false before.toList
    · exact word.no_return

theorem Ready.steady (ready : f.Ready codec v) (settles : f.Settles codec v)
    (rereads : f.Rereads codec v w) (present : f.key.occurrence = .optional → w ≠ .absent) :
    f.Steady codec w := by
  have next := ready.rereads_ready settles rereads present
  obtain ⟨text, wrote, u, read, _, again⟩ :=
    next.exists_text (ready.rereads_settles settles rereads)
  have same := ready.carried_of_rereads rereads present wrote
  obtain ⟨before, written, isItem⟩ := rereads
  by_cases empty : text = ""
  · -- without a text, the item took the place of one that had none either
    have none : f.carried before = "" := by
      by_contra some
      rw [TextOf, if_neg some] at isItem
      have legible := f.legible_carried (Codec.legible_of_write ready.proper ready.yields written)
      refine Codec.ne_empty_of_read ready.proper legible some isItem wrote ?_ empty
      rcases ready.list_or_flat with flat | ⟨isAttribute, _⟩
      · rintro rfl
        obtain ⟨item, rfl⟩ := Codec.exists_item_of_yields_nil (.inr ⟨_, legible, isItem⟩)
        exact flat.elim
      · rw [carried, if_pos isAttribute] at isItem some
        exact Codec.ne_nil_of_read ready.proper ready.yields written some isItem
    rw [none] at isItem
    exact ⟨text, w, wrote, by rwa [same, empty], wrote, present⟩
  · have legible := Codec.legible_of_write ready.proper next.yields wrote
    rw [same] at read
    exact ⟨text, u, wrote, by rwa [same, TextOf, if_neg empty], again same,
      fun _ => Codec.ne_absent_of_yields (.inr ⟨text, legible, read⟩)⟩

/-- An item that is written and read again, and written again, has conversions that never fail. -/
theorem Ready.settles_of_written (ready : f.Ready codec v) (rereads : f.Rereads codec v w)
    (rewritten : (f.key.occurrence = .optional → w ≠ .absent) → ∃ text, codec.write w = .ok text) :
    f.Settles codec v := by
  obtain ⟨text, written, isItem⟩ := rereads
  rcases ready.list_or_flat with flat | ⟨isAttribute, item, rfl⟩
  · have total : codec.Total := by
      rcases ready.yields with rfl | ⟨raw, _, read⟩
      · exact Codec.total_of_written_zero ready.proper written fun nonempty => by
          rw [TextOf, if_neg (by rwa [carried_eq_empty_iff])] at isItem
          exact ⟨_, _, isItem⟩
      · exact Codec.total_of_read flat read written
    exact ⟨(Codec.settles_iff_total flat).mpr total,
      fun _ _ _ => (Codec.settles_iff_total flat).mpr total⟩
  · refine ⟨Codec.settles_of_written_list ready.proper ready.yields written, ?_⟩
    rintro rfl u filled
    have empty := Codec.eq_empty_of_write_nil written
    have single := ready.single isAttribute
    have isEmpty := (f.carried_eq_empty_iff text).mpr empty
    rw [isEmpty] at isItem
    have isInitial := isItem
    rw [TextOf, if_pos rfl, if_neg single] at isInitial
    obtain rfl := Except.ok.inj (isInitial.symm.trans filled)
    by_cases absent : w = .absent
    · rw [absent]
      trivial
    · obtain ⟨text', wrote⟩ := rewritten fun _ => absent
      apply Codec.settles_of_written_list ready.proper _ wrote
      exact yields_of_given ready.simple ready.default ⟨fun _ => absent, "", by simp [Legible], isItem⟩

end Field

end XmlRecords
