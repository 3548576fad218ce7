import XmlRecords.Proofs.EmittedModules

/-!
References to the codecs of simple types, one after another. A type keeps the codec that it was first given,
types that differ get codecs that differ, and every constant that was given is defined at one place, that
of a list after the one of its items.
-/

set_option autoImplicit false
set_option relaxedAutoImplicit false

namespace XmlRecords.ModuleSource

open Schema

namespace CodecTable

/-- Built-in types, enumerations that are named by texts, and lists of such types, of lists too. -/
def Referable : DeclaredType → Prop
  | .primitive _ => True
  | .enumerated e => ∃ name, e.name = .text name
  | .list item => Referable item
  | .complex _ => False

def referEach : CodecTable → List DeclaredType → Except Fault (List CodecName × CodecTable)
  | table, [] => .ok ([], table)
  | table, type :: types => do
    let (codec, table) ← table.refer type
    let (codecs, table) ← table.referEach types
    return (codec :: codecs, table)

structure Settled (types : List DeclaredType) (codecs : List CodecName) (table : CodecTable) : Prop where
  answered : codecs.length = types.length
  /-- The text that stands for a codec is that of one type. -/
  apart : ∀ x ∈ types.zip codecs, ∀ y ∈ types.zip codecs, x.2.text = y.2.text ↔ x.1 = y.1
  /-- Referring to a type again gives the same codec and defines nothing. -/
  kept : ∀ x ∈ types.zip codecs, table.refer x.1 = .ok (x.2, table)
  distinct : ((constantsOf table).flatMap Declaration.boundNames).Nodup
  defined : ∀ name, .constant name ∈ codecs → ∃ before value after,
    constantsOf table = before ++ .constant name value :: after ∧
      ∀ d ∈ before ++ after, ¬ d.Defines name
  ordered : ∀ item name, table.refer (.list item) = .ok (.constant name, table) →
    ∃ codec before after, table.refer item = .ok (codec, table) ∧
      constantsOf table = before ++ .constant name (CodecTerm.list codec).pieces :: after ∧
      ∀ inner, codec = .constant inner → ∃ d ∈ before, d.Defines inner

variable {table table' : CodecTable} {type type' : DeclaredType} {codec : CodecName}
  {types : List DeclaredType}

/-! ### One reference -/

theorem exists_refer (table : CodecTable) (referable : Referable type) :
    ∃ codec table', table.refer type = .ok (codec, table') := by
  induction type with
  | primitive p => exact ⟨.builtIn p, table, rfl⟩
  | enumerated e =>
    obtain ⟨name, isName⟩ := referable
    have defined : table.refer (.enumerated e) =
        .ok (table.define (.enumeration (Identifier.recordClass name))) := by
      rw [refer, isName]
      rfl
    exact ⟨_, _, defined⟩
  | list item ih =>
    obtain ⟨codec, between, isItem⟩ := ih referable
    have defined : table.refer (.list item) = .ok (between.define (.list codec)) := by
      rw [refer, isItem]
      rfl
    exact ⟨_, _, defined⟩
  | complex id => exact referable.elim

theorem builtInName_injective : Function.Injective builtInName := by
  intro p q same
  have texts : ∀ p q : Primitive, builtInName p = builtInName q → p = q := by
    intro p q
    cases p <;> cases q <;> decide
  exact texts p q same

theorem Grown.text_inj (grown : table.Grown) {other : CodecName} (named : table.Names type codec)
    (named' : table.Names type' other) (same : codec.text = other.text) : codec = other := by
  have apart (p : Primitive) {constant : String} (own : Private constant) : builtInName p ≠ constant := by
    intro alike
    have start := own.start
    rw [← alike] at start
    cases p <;> cases start
  cases codec with
  | builtIn p =>
    cases other with
    | builtIn q => rw [builtInName_injective same]
    | constant name => exact absurd same (apart p (grown.private_names _ named'.mem_names))
  | constant name =>
    cases other with
    | builtIn q => exact absurd same.symm (apart q (grown.private_names _ named.mem_names))
    | constant name' => exact congrArg CodecName.constant same

/-- Types whose enumerations are told apart by their class names have one codec only if they are the
same. -/
theorem Names.injective (grown : table.Grown) (named : table.Names type codec)
    (named' : table.Names type' codec)
    (apart : ∀ e e', innermost? type = some e → innermost? type' = some e' →
      e.className = e'.className → e = e') : type = type' := by
  have one {constant : String} {term term' : CodecTerm}
      (member : (constant, term) ∈ table.definitions) (member' : (constant, term') ∈ table.definitions) :
      term = term' :=
    congrArg Prod.snd (List.inj_on_of_nodup_map grown.nodup_names member member' rfl)
  induction named generalizing type' with
  | primitive p =>
    cases named' with
    | primitive => rfl
  | @enumerated e name constant isName member =>
    cases named' with
    | @enumerated e' name' _ isName' member' =>
      have sameClass := CodecTerm.enumeration.inj (one member member')
      have classes : e.className = e'.className := by
        rw [Enumerated.className, Enumerated.className, isName, isName']
        exact sameClass
      rw [apart e e' rfl rfl classes]
    | list _ member' => cases one member member'
  | @list item itemCodec constant _ member ih =>
    cases named' with
    | enumerated _ member' => cases one member member'
    | @list item' itemCodec' _ named' member' =>
      obtain rfl := CodecTerm.list.inj (one member member')
      rw [ih named' apart]

/-! ### References in turn -/

theorem referEach_cons_eq_ok_iff {codecs : List CodecName} :
    table.referEach (type :: types) = .ok (codecs, table') ↔ ∃ codec between rest,
      table.refer type = .ok (codec, between) ∧ between.referEach types = .ok (rest, table') ∧
        codecs = codec :: rest := by
  simp only [referEach, bind_eq_ok_iff, Prod.exists, pure, Except.pure, Except.ok.injEq, Prod.mk.injEq]
  constructor
  · rintro ⟨codec, between, here, rest, _, later, rfl, rfl⟩
    exact ⟨codec, between, rest, here, later, rfl⟩
  · rintro ⟨codec, between, rest, here, later, rfl⟩
    exact ⟨codec, between, here, rest, table', later, rfl, rfl⟩

theorem exists_referEach (table : CodecTable) (referable : ∀ type ∈ types, Referable type) :
    ∃ codecs table', table.referEach types = .ok (codecs, table') := by
  induction types generalizing table with
  | nil => exact ⟨[], table, rfl⟩
  | cons type types ih =>
    obtain ⟨here, later⟩ := List.forall_mem_cons.mp referable
    obtain ⟨codec, between, referred⟩ := exists_refer table here
    obtain ⟨rest, table', others⟩ := ih between later
    exact ⟨codec :: rest, table', referEach_cons_eq_ok_iff.mpr ⟨codec, between, rest, referred, others, rfl⟩⟩

theorem Grown.referEach_spec (grown : table.Grown) {codecs : List CodecName}
    (referred : table.referEach types = .ok (codecs, table')) :
    table'.Grown ∧ table.definitions <+: table'.definitions ∧
      List.Forall₂ table'.Names types codecs := by
  induction types generalizing table codecs with
  | nil =>
    obtain ⟨rfl, rfl⟩ := Prod.mk.inj (Except.ok.inj referred)
    exact ⟨grown, List.prefix_rfl, .nil⟩
  | cons type types ih =>
    obtain ⟨codec, between, rest, here, later, rfl⟩ := referEach_cons_eq_ok_iff.mp referred
    obtain ⟨grownFirst, named, extended⟩ := grown.refer_spec here
    obtain ⟨grown', kept, all⟩ := ih grownFirst later
    exact ⟨grown', extended.kept.trans kept, .cons (named.mono kept) all⟩

theorem Grown.referEach_take (grown : table.Grown) {codecs : List CodecName}
    (referred : table.referEach types = .ok (codecs, table')) (n : Nat) :
    ∃ between, table.referEach (types.take n) = .ok (codecs.take n, between) ∧
      between.definitions <+: table'.definitions := by
  induction types generalizing table codecs n with
  | nil =>
    obtain ⟨rfl, rfl⟩ := Prod.mk.inj (Except.ok.inj referred)
    exact ⟨table, by rw [List.take_nil, List.take_nil]; rfl, List.prefix_rfl⟩
  | cons type types ih =>
    cases n with
    | zero => exact ⟨table, rfl, (grown.referEach_spec referred).2.1⟩
    | succ n =>
      obtain ⟨codec, first, rest, here, later, rfl⟩ := referEach_cons_eq_ok_iff.mp referred
      obtain ⟨between, others, kept⟩ := ih (grown.refer_spec here).1 later n
      rw [List.take_succ_cons, List.take_succ_cons]
      exact ⟨between, referEach_cons_eq_ok_iff.mpr ⟨codec, first, _, here, others, rfl⟩, kept⟩

theorem Grown.names_of_refer (grown : table.Grown) (referred : table.refer type = .ok (codec, table)) :
    table.Names type codec :=
  (grown.refer_spec referred).2.1

theorem Names.exists_term {name : String} (named : table.Names type (.constant name)) :
    ∃ term, (name, term) ∈ table.definitions := by
  cases named with
  | enumerated _ member => exact ⟨_, member⟩
  | list _ member => exact ⟨_, member⟩

/-- What references from an empty table gave is settled, if enumerations are told apart by their class
names. -/
theorem settled_of_referEach {codecs : List CodecName}
    (referred : CodecTable.empty.referEach types = .ok (codecs, table))
    (distinct : ∀ e ∈ types.filterMap innermost?, ∀ e' ∈ types.filterMap innermost?,
      e.className = e'.className → e = e') : table.Settled types codecs := by
  obtain ⟨grown, _, all⟩ := Grown.empty.referEach_spec referred
  have named : ∀ x ∈ types.zip codecs, table.Names x.1 x.2 := fun x member =>
    (List.forall₂_zip all) member
  refine ⟨all.length_eq.symm, fun x memberX y memberY => ?_,
    fun x member => grown.refer_eq_of_names (named x member), ?_, fun name member => ?_,
    fun item name known => ?_⟩
  · constructor
    · intro same
      have sameCodec := grown.text_inj (named x memberX) (named y memberY) same
      refine (named x memberX).injective grown (sameCodec ▸ named y memberY) fun e e' holds holds' => ?_
      exact distinct e (List.mem_filterMap.mpr ⟨x.1, (List.of_mem_zip memberX).1, holds⟩)
        e' (List.mem_filterMap.mpr ⟨y.1, (List.of_mem_zip memberY).1, holds'⟩)
    · intro sameType
      have givenX := grown.refer_eq_of_names (named x memberX)
      have givenY := grown.refer_eq_of_names (named y memberY)
      rw [sameType, givenY] at givenX
      rw [(Prod.mk.inj (Except.ok.inj givenX)).1]
  · rw [boundNames_constantsOf]
    exact grown.nodup_names
  · obtain ⟨type, _, known⟩ := exists_of_forall₂_left all.flip member
    obtain ⟨term, inside⟩ := known.exists_term
    obtain ⟨before, after, split, once, _⟩ := exists_constant grown inside
    exact ⟨before, _, after, split, once⟩
  · cases grown.names_of_refer known with
    | @list _ codec _ namedItem inside =>
      obtain ⟨before, after, split, _, uses⟩ := exists_constant grown inside
      refine ⟨codec, before, after, grown.refer_eq_of_names namedItem, split, ?_⟩
      rintro inner rfl
      exact uses inner (by simp [CodecTerm.pieces])

/-- References one after another. Each gives a codec, and what they gave is settled, also after only some of
them; the table keeps what it has from then on. The name of a new constant is the first one tried that is
not taken, and no more names are tried than there are constants. -/
theorem referEach_settled (referable : ∀ type ∈ types, Referable type)
    (distinct : ∀ e ∈ types.filterMap innermost?, ∀ e' ∈ types.filterMap innermost?,
      e.className = e'.className → e = e') :
    (∃ codecs table, CodecTable.empty.referEach types = .ok (codecs, table) ∧
      table.Settled types codecs ∧
      ∀ n, ∃ between, CodecTable.empty.referEach (types.take n) = .ok (codecs.take n, between) ∧
        between.definitions <+: table.definitions ∧ between.Settled (types.take n) (codecs.take n)) ∧
    ∀ taken name, ∃ n ≤ taken.length, freeName taken name = candidate name n ∧
      candidate name n ∉ taken ∧ ∀ m < n, candidate name m ∈ taken := by
  refine ⟨?_, freeName_eq_candidate⟩
  obtain ⟨codecs, table, referred⟩ := exists_referEach .empty referable
  refine ⟨codecs, table, referred, settled_of_referEach referred distinct, fun n => ?_⟩
  obtain ⟨between, early, kept⟩ := Grown.empty.referEach_take referred n
  refine ⟨between, early, kept, settled_of_referEach early fun e member e' member' => ?_⟩
  have among := ((List.take_sublist n types).filterMap innermost?).subset
  exact distinct e (among member) e' (among member')

def namedEnum (name : String) : Enumerated := ⟨.text name, ["a"]⟩

def clashingTypes : List DeclaredType :=
  [.enumerated (namedEnum "HTTPMode"), .list (.enumerated (namedEnum "HTTPMode")),
    .enumerated (namedEnum "Httpmode"), .list (.enumerated (namedEnum "Httpmode")),
    .enumerated (namedEnum "ListOfHttpmode"), .enumerated (namedEnum "HTTPMode")]

theorem referEach_settled_clashing :
    (∀ type ∈ clashingTypes, Referable type) ∧
    (∀ e ∈ clashingTypes.filterMap innermost?, ∀ e' ∈ clashingTypes.filterMap innermost?,
      e.className = e'.className → e = e') ∧
    ∃ codecs table, CodecTable.empty.referEach clashingTypes = .ok (codecs, table) ∧
      table.Settled clashingTypes codecs ∧ codecs.map CodecName.text =
        ["_HTTPMODE", "_LIST_OF_HTTPMODE", "_HTTPMODE_2", "_LIST_OF_HTTPMODE_2",
          "_LIST_OF_HTTPMODE_3", "_HTTPMODE"] := by
  have referable : ∀ type ∈ clashingTypes, Referable type := by
    simp [clashingTypes, Referable, namedEnum]
  have distinct : ∀ e ∈ clashingTypes.filterMap innermost?,
      ∀ e' ∈ clashingTypes.filterMap innermost?, e.className = e'.className → e = e' := by
    have upper : (namedEnum "HTTPMode").className = "HTTPMode" := by rfl
    have lower : (namedEnum "Httpmode").className = "Httpmode" := by rfl
    have list : (namedEnum "ListOfHttpmode").className = "ListOfHttpmode" := by rfl
    simp [clashingTypes, innermost?, upper, lower, list]
  obtain ⟨⟨codecs, table, referred, settled, _⟩, _⟩ := referEach_settled referable distinct
  have given : (CodecTable.empty.referEach clashingTypes).toOption.map (·.1.map CodecName.text) =
      some ["_HTTPMODE", "_LIST_OF_HTTPMODE", "_HTTPMODE_2", "_LIST_OF_HTTPMODE_2",
        "_LIST_OF_HTTPMODE_3", "_HTTPMODE"] := by
    decide +kernel
  rw [referred] at given
  exact ⟨referable, distinct, codecs, table, referred, settled, Option.some.inj given⟩

end CodecTable

end XmlRecords.ModuleSource
