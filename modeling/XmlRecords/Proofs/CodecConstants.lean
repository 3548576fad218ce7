import Mathlib.Data.Finset.Card
import Mathlib.Data.List.Infix
import XmlRecords.ModuleSource.RecordClass
import XmlRecords.Proofs.Naming
import XmlRecords.Proofs.Resolution

/-!
The codec constants of a generated module. Every constant has a name and a definition of its own, and
stands after the constants that its definition uses; a type that was referred to keeps its codec.
-/

set_option autoImplicit false
set_option relaxedAutoImplicit false

namespace XmlRecords.ModuleSource

open Schema
open BoundSchema (textOf_eq_ok_iff)

/-! ### Free names -/

namespace CodecTable

theorem numberedName_injective (name : String) : Function.Injective (numberedName name) := by
  intro m n same
  have characters := congrArg String.toList same
  simp only [numberedName, String.toList_append, List.append_assoc, List.append_cancel_left_eq,
    Nat.toString_eq_repr, Nat.toList_repr] at characters
  have values := congrArg (Nat.ofDigitChars 10 · 0) characters
  simpa only [Nat.ofDigitChars_toDigits (by decide : 1 < 10) (by decide : 10 ≤ 10)] using values

/-- The names that a constant may get, in the order in which they are tried. -/
def candidate (name : String) : Nat → String
  | 0 => name
  | n + 1 => numberedName name (n + 2)

theorem candidate_injective (name : String) : Function.Injective (candidate name) := by
  have longer (n : Nat) : name ≠ numberedName name n := by
    intro same
    have lengths := congrArg String.length same
    have one : "_".length = 1 := rfl
    simp only [numberedName, String.length_append, one] at lengths
    omega
  intro m n same
  cases m with
  | zero =>
    cases n with
    | zero => rfl
    | succ n => exact absurd same (longer _)
  | succ m =>
    cases n with
    | zero => exact absurd same.symm (longer _)
    | succ n =>
      have numbers := numberedName_injective name same
      omega

theorem le_length_of_taken {taken : List String} {name : String} {n : Nat}
    (all : ∀ m < n, candidate name m ∈ taken) : n ≤ taken.length := by
  have distinct : ((List.range n).map (candidate name)).Nodup :=
    List.nodup_range.map (candidate_injective name)
  have inside : (List.range n).map (candidate name) ⊆ taken := by
    intro tried member
    obtain ⟨m, below, rfl⟩ := List.mem_map.mp member
    exact all m (List.mem_range.mp below)
  simpa using (distinct.subperm inside).length_le

theorem freeName_eq_candidate (taken : List String) (name : String) :
    ∃ n ≤ taken.length, freeName taken name = candidate name n ∧ candidate name n ∉ taken ∧
      ∀ m < n, candidate name m ∈ taken := by
  unfold freeName
  split
  · rename_i isTaken
    rw [List.contains_iff_mem] at isTaken
    have allTaken {n : Nat} (before : ∀ m < n, numberedName name (m + 2) ∈ taken) :
        ∀ m < n + 1, candidate name m ∈ taken := by
      intro m below
      cases m with
      | zero => exact isTaken
      | succ m => exact before m (by omega)
    dsimp only
    rw [List.find?_map]
    -- The search ends within its bound, as there are more candidates than names taken.
    cases found : (List.range (taken.length + 1)).find?
        ((!taken.contains ·) ∘ fun n => numberedName name (n + 2)) with
    | none =>
      have refused := List.find?_eq_none.mp found
      have bounded := le_length_of_taken (@allTaken (taken.length + 1) fun m below => by
        simpa using refused m (List.mem_range.mpr below))
      omega
    | some n =>
      obtain ⟨free, _, before⟩ := List.find?_range_eq_some.mp found
      have all := allTaken fun m below => by simpa using before m below
      exact ⟨n + 1, le_length_of_taken all, rfl, by simpa [candidate] using free, all⟩
  · rename_i free
    rw [List.contains_iff_mem] at free
    exact ⟨0, Nat.zero_le _, rfl, free, by simp⟩

theorem freeName_not_mem (taken : List String) (name : String) : freeName taken name ∉ taken := by
  obtain ⟨n, _, isCandidate, free, _⟩ := freeName_eq_candidate taken name
  rwa [isCandidate]

/-- The name of a constant: an underscore first, and nothing but letters, digits and underscores of
ASCII. -/
structure Private (name : String) : Prop where
  start : name.toList.head? = some '_'
  word : ∀ c ∈ name.toList, Identifier.isWordChar c = true

theorem Private.append {name rest : String} (own : Private name)
    (word : ∀ c ∈ rest.toList, Identifier.isWordChar c = true) : Private (name ++ rest) := by
  refine ⟨?_, ?_⟩
  · rw [String.toList_append, List.head?_append, own.start, Option.some_or]
  · rw [String.toList_append]
    exact List.forall_mem_append.mpr ⟨own.word, word⟩

theorem Private.numbered {name : String} (own : Private name) (n : Nat) :
    Private (numberedName name n) := by
  have divided : Private (name ++ "_") := own.append (List.all_eq_true.mp (by decide))
  refine divided.append fun c member => ?_
  rw [Nat.toString_eq_repr, Nat.toList_repr] at member
  have digit : c.isDigit = true := Nat.isDigit_of_mem_toDigits (by decide) (by decide) member
  simp [Identifier.isWordChar, Char.isAlphanum, digit]

theorem word_stem {codec : CodecName} (known : ∀ used, codec = .constant used → Private used) :
    ∀ c ∈ CodecTerm.stem codec, Identifier.isWordChar c = true := by
  cases codec with
  | builtIn p => cases p <;> exact List.all_eq_true.mp (by decide)
  | constant name =>
    exact fun c member => (known name rfl).word c (Identifier.mem_of_mem_trimBoth member)

theorem private_wish {term : CodecTerm}
    (known : ∀ used, Piece.codec (.constant used) ∈ term.pieces → Private used) :
    Private term.wish := by
  cases term with
  | enumeration className =>
    refine ⟨by simp [CodecTerm.wish], ?_⟩
    rw [CodecTerm.wish, String.toList_ofList]
    refine List.forall_mem_cons.mpr ⟨by decide, List.forall_mem_map.mpr fun c member => ?_⟩
    exact Identifier.isWordChar_toUpper (Identifier.isWordChar_of_mem_bare member)
  | list item =>
    refine Private.append ⟨by decide, List.all_eq_true.mp (by decide)⟩ ?_
    rw [String.toList_ofList]
    exact word_stem fun used same => known used (by simp [CodecTerm.pieces, same])

theorem private_freeName {name : String} (own : Private name) (taken : List String) :
    Private (freeName taken name) := by
  obtain ⟨n, _, isCandidate, _⟩ := freeName_eq_candidate taken name
  rw [isCandidate]
  cases n with
  | zero => exact own
  | succ n => exact own.numbered _

/-! ### Tables -/

/-- A table that was filled in turn: each constant under the first name that was free, with a definition of
its own, and after the constants that it uses. -/
inductive Grown : CodecTable → Prop
  | empty : Grown .empty
  | snoc {table : CodecTable} {name : String} {term : CodecTerm} : Grown table →
      Private name → name ∉ table.names → term ∉ table.definitions.map (·.2) →
      (∀ used, Piece.codec (.constant used) ∈ term.pieces → used ∈ table.names) →
      (∃ n, name = candidate term.wish n ∧ ∀ m < n, candidate term.wish m ∈ table.names) →
      Grown ⟨table.definitions ++ [(name, term)]⟩

inductive Names (table : CodecTable) : DeclaredType → CodecName → Prop
  | primitive (p : Primitive) : Names table (.primitive p) (.builtIn p)
  | enumerated {e : Enumerated} {name constant : String} : e.name = .text name →
      (constant, .enumeration (Identifier.recordClass name)) ∈ table.definitions →
      Names table (.enumerated e) (.constant constant)
  | list {item : DeclaredType} {codec : CodecName} {constant : String} : Names table item codec →
      (constant, .list codec) ∈ table.definitions → Names table (.list item) (.constant constant)

/-- The enumeration whose tags a type holds, by itself or in lists. -/
def innermost? : DeclaredType → Option Enumerated
  | .enumerated e => some e
  | .list item => innermost? item
  | _ => none

/-- A table goes on from another: it keeps its constants, and each class of enumerations that it adds is
of one of the types. -/
structure Extends (before after : CodecTable) (types : List DeclaredType) : Prop where
  kept : before.definitions <+: after.definitions
  added : ∀ constant className, (constant, CodecTerm.enumeration className) ∈ after.definitions →
    (constant, CodecTerm.enumeration className) ∈ before.definitions ∨
      ∃ type ∈ types, ∃ e name, innermost? type = some e ∧ e.name = .text name ∧
        className = Identifier.recordClass name

variable {table table' : CodecTable} {type : DeclaredType} {codec : CodecName}

theorem Names.mono (h : table.Names type codec) (kept : table.definitions <+: table'.definitions) :
    table'.Names type codec := by
  induction h with
  | primitive p => exact .primitive p
  | enumerated isName member => exact .enumerated isName (kept.subset member)
  | list _ member ih => exact .list ih (kept.subset member)

theorem Names.mem_names {constant : String} (h : table.Names type (.constant constant)) :
    constant ∈ table.names := by
  cases h with
  | enumerated _ member => exact List.mem_map_of_mem (f := (·.1)) member
  | list _ member => exact List.mem_map_of_mem (f := (·.1)) member

theorem Names.exists_enumeration (h : table.Names type codec) {e : Enumerated} {name : String}
    (holds : innermost? type = some e) (isName : e.name = .text name) :
    ∃ constant, (constant, CodecTerm.enumeration (Identifier.recordClass name)) ∈
      table.definitions := by
  induction h with
  | primitive p => cases holds
  | enumerated own member =>
    obtain rfl := Option.some.inj holds
    obtain rfl := Json.text.inj (own.symm.trans isName)
    exact ⟨_, member⟩
  | list _ _ ih => exact ih holds

namespace Grown

theorem nodup_names (grown : table.Grown) : table.names.Nodup := by
  induction grown with
  | empty => exact List.nodup_nil
  | snoc _ _ fresh _ _ _ ih =>
    rw [names, List.map_append, List.map_singleton]
    exact ih.append (List.nodup_singleton _) (List.disjoint_singleton.mpr fresh)

theorem private_names (grown : table.Grown) : ∀ name ∈ table.names, Private name := by
  induction grown with
  | empty => simp [names, CodecTable.empty]
  | snoc _ own _ _ _ _ ih =>
    rw [names, List.map_append, List.map_singleton, List.forall_mem_append]
    exact ⟨ih, List.forall_mem_singleton.mpr own⟩

theorem nodup_terms (grown : table.Grown) : (table.definitions.map (·.2)).Nodup := by
  induction grown with
  | empty => exact List.nodup_nil
  | snoc _ _ _ new _ _ ih =>
    rw [List.map_append, List.map_singleton]
    exact ih.append (List.nodup_singleton _) (List.disjoint_singleton.mpr new)

theorem mem_before {before after : List (String × CodecTerm)} {name used : String} {term : CodecTerm}
    (grown : Grown ⟨before ++ (name, term) :: after⟩)
    (uses : Piece.codec (.constant used) ∈ term.pieces) : used ∈ before.map (·.1) := by
  generalize isTable : (⟨before ++ (name, term) :: after⟩ : CodecTable) = table at grown
  induction grown generalizing after with
  | empty => simp [CodecTable.empty] at isTable
  | @snoc table last lastTerm _ _ _ _ earlier _ ih =>
    have split := congrArg CodecTable.definitions isTable
    simp only at split
    rcases List.eq_nil_or_concat after with rfl | ⟨shorter, final, rfl⟩
    · obtain ⟨rfl, isLast⟩ := List.append_inj' split rfl
      obtain ⟨rfl, rfl⟩ := Prod.mk.inj (List.singleton_inj.mp isLast)
      exact earlier used uses
    · rw [List.concat_eq_append, ← List.cons_append, ← List.append_assoc] at split
      obtain ⟨same, _⟩ := List.append_inj' split rfl
      exact @ih shorter (by rw [same])

theorem mem_names_of_list (grown : table.Grown) {name inner : String}
    (member : (name, CodecTerm.list (.constant inner)) ∈ table.definitions) : inner ∈ table.names := by
  obtain ⟨earlier, later, split⟩ := List.append_of_mem member
  have whole : table = ⟨earlier ++ (name, .list (.constant inner)) :: later⟩ := by rw [← split]
  rw [names, split, List.map_append]
  exact List.mem_append_left _ ((whole ▸ grown).mem_before (by simp [CodecTerm.pieces]))

theorem exists_candidate (grown : table.Grown) {name : String} {term : CodecTerm}
    (member : (name, term) ∈ table.definitions) : ∃ n, name = candidate term.wish n ∧
      ∀ m < n, ∃ other ≠ term, (candidate term.wish m, other) ∈ table.definitions := by
  induction grown with
  | empty => cases member
  | @snoc table last lastTerm _ _ _ new _ tried ih =>
    rcases List.mem_append.mp member with earlier | isLast
    · obtain ⟨n, isCandidate, taken⟩ := ih earlier
      refine ⟨n, isCandidate, fun m below => ?_⟩
      obtain ⟨other, differs, inside⟩ := taken m below
      exact ⟨other, differs, List.mem_append_left _ inside⟩
    · obtain ⟨rfl, rfl⟩ := Prod.mk.inj (List.mem_singleton.mp isLast)
      obtain ⟨n, isCandidate, taken⟩ := tried
      refine ⟨n, isCandidate, fun m below => ?_⟩
      obtain ⟨⟨_, other⟩, inside, same⟩ := List.mem_map.mp (taken m below)
      rw [← same]
      refine ⟨other, ?_, List.mem_append_left _ inside⟩
      rintro rfl
      exact new (List.mem_map_of_mem inside)

theorem nameOf?_eq_some_iff (grown : table.Grown) {term : CodecTerm} {name : String} :
    table.nameOf? term = some name ↔ (name, term) ∈ table.definitions := by
  unfold nameOf?
  constructor
  · intro found
    obtain ⟨⟨constant, other⟩, first, rfl⟩ := Option.map_eq_some_iff.mp found
    have same := List.find?_some first
    simp only [beq_iff_eq] at same
    exact same ▸ List.mem_of_find?_eq_some first
  · intro member
    have found : table.definitions.find? (·.2 == term) = some (name, term) :=
      @find?_eq_some_of_nodup _ _ Prod.snd (· == term) _ grown.nodup_terms _ member fun k => by
        rw [beq_iff_eq]
    rw [found, Option.map_some]

/-- A term is defined once: its constant is in the table, or it is added at the end. -/
theorem define_spec (grown : table.Grown) {term : CodecTerm}
    (known : ∀ used, Piece.codec (.constant used) ∈ term.pieces → used ∈ table.names) :
    ∃ constant, (table.define term).1 = .constant constant ∧ (table.define term).2.Grown ∧
      (constant, term) ∈ (table.define term).2.definitions ∧
      table.definitions <+: (table.define term).2.definitions ∧
      ∀ entry ∈ (table.define term).2.definitions, entry ∈ table.definitions ∨ entry.2 = term := by
  unfold define
  cases found : table.nameOf? term with
  | some name =>
    exact ⟨name, rfl, grown, grown.nameOf?_eq_some_iff.mp found, List.prefix_rfl, fun _ => .inl⟩
  | none =>
    have new : term ∉ table.definitions.map (·.2) := by
      intro member
      obtain ⟨⟨constant, _⟩, inside, rfl⟩ := List.mem_map.mp member
      rw [grown.nameOf?_eq_some_iff.mpr inside] at found
      cases found
    have own := private_wish fun used uses => grown.private_names used (known used uses)
    obtain ⟨n, _, isCandidate, _, taken⟩ := freeName_eq_candidate table.names term.wish
    refine ⟨_, rfl, .snoc grown (private_freeName own _) (freeName_not_mem _ _) new known
      ⟨n, isCandidate, taken⟩, ?_, List.prefix_append _ _, ?_⟩
    · exact List.mem_append_right _ (List.mem_singleton.mpr rfl)
    · intro entry member
      rcases List.mem_append.mp member with earlier | last
      · exact .inl earlier
      · exact .inr (congrArg Prod.snd (List.mem_singleton.mp last))

end Grown

/-! ### References -/

theorem Extends.refl (table : CodecTable) (types : List DeclaredType) :
    table.Extends table types := ⟨List.prefix_rfl, fun _ _ => .inl⟩

theorem Extends.trans {before between after : CodecTable} {first second : List DeclaredType}
    (head : before.Extends between first) (tail : between.Extends after second) :
    before.Extends after (first ++ second) := by
  refine ⟨head.kept.trans tail.kept, fun constant className member => ?_⟩
  rcases tail.added constant className member with earlier | ⟨type, among, own⟩
  · rcases head.added constant className earlier with first | ⟨type, among, own⟩
    · exact .inl first
    · exact .inr ⟨type, List.mem_append_left _ among, own⟩
  · exact .inr ⟨type, List.mem_append_right _ among, own⟩

namespace Grown

/-- A reference keeps the table in order, and the table has the codec from then on. -/
theorem refer_spec (grown : table.Grown) (referred : table.refer type = .ok (codec, table')) :
    table'.Grown ∧ table'.Names type codec ∧ table.Extends table' [type] := by
  induction type generalizing codec table' with
  | primitive p =>
    obtain ⟨rfl, rfl⟩ := Prod.mk.inj (Except.ok.inj referred)
    exact ⟨grown, .primitive p, .refl table _⟩
  | enumerated e =>
    rw [refer] at referred
    obtain ⟨name, isText, referred⟩ := bind_eq_ok_iff.mp referred
    have isName := textOf_eq_ok_iff.mp isText
    obtain ⟨constant, isConstant, grown', member, kept, added⟩ := @define_spec _ grown
      (.enumeration (Identifier.recordClass name)) (by simp [CodecTerm.pieces])
    rw [Except.ok.inj referred] at isConstant grown' member kept added
    obtain rfl : codec = .constant constant := isConstant
    refine ⟨grown', .enumerated isName member, kept, fun other className inside => ?_⟩
    rcases added _ inside with earlier | own
    · exact .inl earlier
    · exact .inr ⟨.enumerated e, List.mem_singleton.mpr rfl, e, name, rfl, isName,
        CodecTerm.enumeration.inj own⟩
  | list item ih =>
    rw [refer] at referred
    obtain ⟨⟨itemCodec, between⟩, isItem, referred⟩ := bind_eq_ok_iff.mp referred
    obtain ⟨grownItem, named, extended⟩ := ih isItem
    obtain ⟨constant, isConstant, grown', member, kept, added⟩ := @define_spec _ grownItem
      (.list itemCodec) (by
        intro used uses
        simp only [CodecTerm.pieces, List.mem_cons, reduceCtorEq, Piece.codec.injEq, List.not_mem_nil,
          or_false, false_or] at uses
        exact (uses ▸ named).mem_names)
    rw [Except.ok.inj referred] at isConstant grown' member kept added
    obtain rfl : codec = .constant constant := isConstant
    refine ⟨grown', .list (named.mono kept) member, extended.kept.trans kept,
      fun other className inside => ?_⟩
    rcases added _ inside with earlier | own
    · rcases extended.added other className earlier with first | ⟨type, among, e, name, is⟩
      · exact .inl first
      · obtain rfl := List.mem_singleton.mp among
        exact .inr ⟨.list type, List.mem_singleton.mpr rfl, e, name, is⟩
    · cases own
  | complex id => cases referred

theorem refer_eq_of_names (grown : table.Grown) (named : table.Names type codec) :
    table.refer type = .ok (codec, table) := by
  induction named with
  | primitive p => rfl
  | @enumerated e name constant isName member =>
    have found := grown.nameOf?_eq_some_iff.mpr member
    rw [refer, isName]
    simp only [textOf, bind, Except.bind, define, found]
    rfl
  | @list item codec constant _ member ih =>
    have found := grown.nameOf?_eq_some_iff.mpr member
    rw [refer, ih]
    simp only [bind, Except.bind, define, found]
    rfl

theorem referAll_spec {types : List DeclaredType} (grown : table.Grown)
    (referred : table.referAll types = .ok table') :
    table'.Grown ∧ (∀ type ∈ types, ∃ codec, table'.Names type codec) ∧
      table.Extends table' types := by
  induction types generalizing table with
  | nil =>
    obtain rfl := Except.ok.inj referred
    exact ⟨grown, by simp, .refl table []⟩
  | cons type types ih =>
    rw [referAll, List.foldlM_cons] at referred
    obtain ⟨between, first, rest⟩ := bind_eq_ok_iff.mp referred
    obtain ⟨⟨codec, _⟩, here, rfl⟩ := map_eq_ok_iff.mp first
    obtain ⟨grownFirst, named, extended⟩ := grown.refer_spec here
    obtain ⟨grown', others, onward⟩ := ih grownFirst rest
    refine ⟨grown', List.forall_mem_cons.mpr ⟨⟨codec, named.mono onward.kept⟩, others⟩, ?_⟩
    exact extended.trans onward

end Grown

end CodecTable

end XmlRecords.ModuleSource
