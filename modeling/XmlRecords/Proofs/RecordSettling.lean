import XmlRecords.Proofs.ItemSettling
import XmlRecords.Proofs.RecordReadBack

/-!
Records written and read twice: which items take the place of the items of a record that is read
back from the element it is written as, and that these are written as they were from then on.
-/

set_option autoImplicit false
set_option relaxedAutoImplicit false

namespace XmlRecords

open Xml

/-! ### Items that take the place of others -/

/-- Items read back from what others are written as, those of records inside records included. An
item of an optional field may come back as none. -/
inductive Again : List (Field × Value) → List (Field × Value) → Prop
  | nil : Again [] []
  | simple {f : Field} {codec : Codec} {v w : Value} {items others : List (Field × Value)} :
      f.codec? = some codec → f.Rereads codec v w →
      (f.key.occurrence = .optional → w ≠ .absent) → Again items others →
      Again ((f, v) :: items) ((f, w) :: others)
  | dropped {f : Field} {codec : Codec} {v : Value} {items others : List (Field × Value)} :
      f.codec? = some codec → f.Rereads codec v .absent → f.key.occurrence = .optional →
      Again items others → Again ((f, v) :: items) others
  | record {f : Field} {inner : RecordType} {values values' : List Value}
      {items others : List (Field × Value)} :
      f.type? = some inner → Shaped inner.fields values' →
      Again (presentItems inner.fields values) (presentItems inner.fields values') →
      Again items others →
      Again ((f, .record inner.layout values) :: items) ((f, .record inner.layout values') :: others)

theorem Again.append {items others items' others' : List (Field × Value)}
    (first : Again items others) (second : Again items' others') :
    Again (items ++ items') (others ++ others') := by
  induction first with
  | nil => exact second
  | simple isSimple rereads present _ ih => exact .simple isSimple rereads present ih
  | dropped isSimple rereads optional _ ih => exact .dropped isSimple rereads optional ih
  | record nested shaped inside _ _ ih => exact .record nested shaped inside ih

theorem again_presentItems {fields : List Field} {values others : List Value}
    (shaped : Shaped fields values)
    (related : List.Forall₂ (fun entry w => Again ((entry.1.present entry.2).map (entry.1, ·))
      ((entry.1.present w).map (entry.1, ·))) (fields.zip values) others) :
    Again (presentItems fields values) (presentItems fields others) := by
  induction shaped generalizing others with
  | nil => exact .nil
  | @cons f v fields values _ _ ih =>
    obtain ⟨w, others, here, below, rfl⟩ := List.forall₂_cons_left_iff.mp related
    exact here.append (ih below)

/-- The items of a field take the place of others if each of them does. -/
theorem Field.Regains.again {f : Field} {R : Value → Value → Prop} {v w : Value}
    (regains : f.Regains R v w)
    (kept : ∀ item ∈ f.present v, ∀ again, R item again →
      (f.key.occurrence = .optional → again ≠ .absent) → Again [(f, item)] [(f, again)])
    (dropped : f.key.occurrence = .optional → ∀ item ∈ f.present v, R item .absent →
      Again [(f, item)] []) :
    Again ((f.present v).map (f, ·)) ((f.present w).map (f, ·)) := by
  cases regains with
  | items repeated related =>
    rw [present_repeated repeated] at kept ⊢
    rw [present_repeated repeated]
    induction related with
    | nil => exact .nil
    | @cons item again items others holds _ ih =>
      have first := kept item List.mem_cons_self again holds (by simp [repeated])
      exact first.append (ih (fun i member => kept i (List.mem_cons_of_mem item member))
        (by simp [repeated]))
  | value single one holds =>
    have held : v ∈ f.present v := by
      rw [one]
      exact List.mem_singleton_self v
    rw [one]
    rcases present_single single (v := w) with itself | ⟨optional, rfl, none⟩
    · rw [itself]
      refine kept v held w holds fun optional absent => ?_
      rw [absent, present_absent optional] at itself
      cases itself
    · rw [none]
      exact dropped optional v held holds
  | absent optional =>
    rw [present_absent optional]
    exact .nil

namespace RecordType

variable {type : RecordType} {values others : List Value} {attributes : List (String × String)}
  {inside : Forest}

/-- What the element of a record gives is a record, the items of which take the place of those of the
first. -/
theorem again_of_fromNode (fitting : type.Throughout Field.Fitting)
    (reads : type.Reads (.record type.layout values))
    (attributesDrawn : DrawsAttributes (presentItems type.fields values) attributes)
    (insideDrawn : Draws (presentItems type.fields values) inside) {name : String}
    {depth outer : Int} {w : Value}
    (back : type.fromNode
      (.element (plainTag name attributes) (inside.normalized.nodes depth outer)) = .ok w) :
    ∃ others, w = .record type.layout others ∧ Shaped type.fields others ∧
      Again (presentItems type.fields values) (presentItems type.fields others) := by
  induction fitting generalizing values attributes inside name depth outer w with
  | @mk className typeName fields own below ih =>
    have sound : (RecordType.mk className typeName fields).Throughout Field.Sound :=
      RecordType.Throughout.sound (.mk own below)
    obtain ⟨values', same, shaped, _, received⟩ := RecordType.items_of_reads sound reads
    obtain rfl := (Value.record.inj same).2
    have writable : Field.Writable (RecordType.mk className typeName fields).fields := own.1
    obtain ⟨others, rfl, shapedAgain, related⟩ :=
      regains_of_fromNode writable shaped attributesDrawn insideDrawn back
    refine ⟨others, rfl, shapedAgain, again_presentItems shaped ?_⟩
    refine forall₂_imp_mem related fun ⟨f, v⟩ aligned w regains => ?_
    have belongs : f ∈ fields := (List.of_mem_zip aligned).1
    have ofRecord {item again : Value} (held : item ∈ f.present v) (returns : f.Returns item again)
        {inner : RecordType} (nested : f.type? = some inner) (innerReads : inner.Reads item) :
        ∃ values others, item = .record inner.layout values ∧ again = .record inner.layout others ∧
          Shaped inner.fields others ∧
          Again (presentItems inner.fields values) (presentItems inner.fields others) := by
      obtain ⟨values, attributes, inside, name, depth, outer, rfl, attributesDrawn, insideDrawn,
        back⟩ := returns.exists_fromNode (own.1.1.element_of_type belongs nested) nested
      obtain ⟨others, rfl, shaped, items⟩ :=
        ih f belongs inner nested innerReads attributesDrawn insideDrawn back
      exact ⟨values, others, rfl, rfl, shaped, items⟩
    refine regains.again ?_ ?_
    · intro item held again returns present
      rcases received (f, item) (mem_presentItems_of_zip aligned held) with
        ⟨codec, simple, _⟩ | ⟨inner, nested, innerReads⟩
      · exact .simple simple (returns.exists_text simple) present .nil
      · obtain ⟨values, others, rfl, rfl, shaped, items⟩ := ofRecord held returns nested innerReads
        exact .record nested shaped items .nil
    · intro optional item held returns
      rcases received (f, item) (mem_presentItems_of_zip aligned held) with
        ⟨codec, simple, _⟩ | ⟨inner, nested, innerReads⟩
      · exact .dropped simple (returns.exists_text simple) optional .nil
      · obtain ⟨_, _, _, absent, _⟩ := ofRecord held returns nested innerReads
        cases absent

/-- The element of a record gives a record if the texts of its items give items. -/
theorem exists_fromNode_of_rereads (fitting : type.Throughout Field.Fitting)
    (reads : type.Reads (.record type.layout values))
    (holds : type.Holds (fun f codec v => ∃ w, f.Rereads codec v w) (.record type.layout values))
    (attributesDrawn : DrawsAttributes (presentItems type.fields values) attributes)
    (insideDrawn : Draws (presentItems type.fields values) inside) (name : String)
    (depth outer : Int) :
    ∃ w, type.fromNode
      (.element (plainTag name attributes) (inside.normalized.nodes depth outer)) = .ok w := by
  induction fitting generalizing values attributes inside name depth outer with
  | @mk className typeName fields own below ih =>
    have sound : (RecordType.mk className typeName fields).Throughout Field.Sound :=
      RecordType.Throughout.sound (.mk own below)
    obtain ⟨values', same, shaped, settable, received⟩ := RecordType.items_of_reads sound reads
    obtain rfl := (Value.record.inj same).2
    obtain ⟨values', same, _, conforms⟩ := holds
    obtain rfl := (Value.record.inj same).2
    have writable : Field.Writable (RecordType.mk className typeName fields).fields := own.1
    have restores : ∀ entry ∈ presentItems fields values,
        entry.1.Restores (fun _ _ => True) entry.2 := by
      rintro ⟨f, item⟩ member
      rcases (conforms_iff.mp conforms _ member).received (received _ member) with
        ⟨codec, simple, _, _, _, written, isItem⟩ | ⟨inner, nested, innerReads, innerHolds⟩
      · exact .of_codec simple written isItem trivial
      · refine .of_type (own.1.1.element_of_type (mem_presentItems member) nested) nested ?_
        rintro values attributes inside name depth outer rfl attributesDrawn insideDrawn
        obtain ⟨w, back⟩ := ih f (mem_presentItems member) inner nested innerReads innerHolds
          attributesDrawn insideDrawn name depth outer
        exact ⟨w, back, trivial⟩
    obtain ⟨others, back, _⟩ := exists_fromNode_of_restores writable settable shaped
      attributesDrawn insideDrawn restores name depth outer
    exact ⟨_, back⟩

end RecordType

/-! ### What items take over from the others -/

theorem Again.conforms {P Q : Field → Codec → Value → Prop} {items others : List (Field × Value)}
    (again : Again items others) (conforms : Conforms P items)
    (step : ∀ f codec v w, P f codec v → f.Rereads codec v w →
      (f.key.occurrence = .optional → w ≠ .absent) → Q f codec w) : Conforms Q others := by
  induction again with
  | nil => exact .nil
  | simple isSimple rereads present _ ih =>
    obtain ⟨item, below⟩ := conforms_cons.mp conforms
    exact .simple isSimple (step _ _ _ _ (item.of_simple isSimple) rereads present) (ih below)
  | dropped _ _ _ _ ih => exact ih (conforms_cons.mp conforms).2
  | record nested shaped _ _ ihInside ihRest =>
    obtain ⟨item, below⟩ := conforms_cons.mp conforms
    obtain ⟨values, same, _, inside⟩ := item.of_nested nested
    obtain rfl := (Value.record.inj same).2
    exact .record nested shaped (ihInside inside) (ihRest below)

/-- Items are as what is known of the items that take their place says. -/
theorem Again.conforms_back {P Q R : Field → Codec → Value → Prop}
    {items others : List (Field × Value)} (again : Again items others) (first : Conforms P items)
    (second : Conforms Q others)
    (step : ∀ f codec v w, P f codec v → f.Rereads codec v w →
      ((f.key.occurrence = .optional → w ≠ .absent) → Q f codec w) → R f codec v) :
    Conforms R items := by
  induction again with
  | nil => exact .nil
  | simple isSimple rereads _ _ ih =>
    obtain ⟨item, below⟩ := conforms_cons.mp first
    obtain ⟨other, belowOther⟩ := conforms_cons.mp second
    exact .simple isSimple (step _ _ _ _ (item.of_simple isSimple) rereads
      fun _ => other.of_simple isSimple) (ih below belowOther)
  | dropped isSimple rereads optional _ ih =>
    obtain ⟨item, below⟩ := conforms_cons.mp first
    exact .simple isSimple (step _ _ _ _ (item.of_simple isSimple) rereads
      fun present => absurd rfl (present optional)) (ih below second)
  | record nested _ _ _ ihInside ihRest =>
    obtain ⟨item, below⟩ := conforms_cons.mp first
    obtain ⟨other, belowOther⟩ := conforms_cons.mp second
    obtain ⟨values, same, shaped, inside⟩ := item.of_nested nested
    obtain ⟨values', same', _, insideOther⟩ := other.of_nested nested
    obtain rfl := (Value.record.inj same).2
    obtain rfl := (Value.record.inj same').2
    exact .record nested shaped (ihInside inside insideOther) (ihRest below belowOther)

/-! ### What items are written as -/

theorem Draws.of_attribute {f : Field} {v : Value} {items : List (Field × Value)} {row : Forest}
    (drawn : Draws ((f, v) :: items) row) (isAttribute : f.key.isAttribute = true) :
    Draws items row := by
  cases drawn with
  | value _ below => exact below
  | text element =>
    rw [isAttribute] at element
    cases element
  | record element =>
    rw [isAttribute] at element
    cases element

theorem Draws.of_simple {f : Field} {codec : Codec} {v : Value} {items : List (Field × Value)}
    {row : Forest} (drawn : Draws ((f, v) :: items) row) (element : f.key.isAttribute = false)
    (simple : f.codec? = some codec) :
    ∃ content rest, row = .text f.key.xmlName content rest ∧ codec.write v = .ok content ∧
      Draws items rest := by
  cases drawn with
  | value isAttribute =>
    rw [element] at isAttribute
    cases isAttribute
  | text _ simple' written below =>
    obtain rfl := Option.some.inj (simple.symm.trans simple')
    exact ⟨_, _, rfl, written, below⟩
  | record _ nested =>
    exact absurd nested (Field.not_nested_of_simple simple)

theorem Draws.of_nested {f : Field} {inner : RecordType} {values : List Value}
    {items : List (Field × Value)} {row : Forest}
    (drawn : Draws ((f, .record inner.layout values) :: items) row)
    (element : f.key.isAttribute = false) (nested : f.type? = some inner) :
    ∃ attributes inside rest, row = .element f.key.xmlName attributes inside rest ∧
      DrawsAttributes (presentItems inner.fields values) attributes ∧
      Draws (presentItems inner.fields values) inside ∧ Draws items rest := by
  generalize shape : (f, Value.record inner.layout values) :: items = all at drawn
  cases drawn with
  | nil => cases shape
  | value isAttribute =>
    obtain ⟨rfl, _⟩ := Prod.mk.inj (List.cons.inj shape).1
    rw [element] at isAttribute
    cases isAttribute
  | text _ simple =>
    obtain ⟨rfl, _⟩ := Prod.mk.inj (List.cons.inj shape).1
    exact absurd nested (Field.not_nested_of_simple simple)
  | record _ nested' attributesDrawn insideDrawn below =>
    obtain ⟨same, rfl⟩ := List.cons.inj shape
    obtain ⟨rfl, sameRecord⟩ := Prod.mk.inj same
    obtain rfl := Option.some.inj (nested.symm.trans nested')
    obtain rfl := (Value.record.inj sameRecord).2
    exact ⟨_, _, _, rfl, attributesDrawn, insideDrawn, below⟩

theorem DrawsAttributes.unique {items : List (Field × Value)} {first second : List (String × String)}
    (drawn : DrawsAttributes items first) (drawn' : DrawsAttributes items second) : first = second := by
  refine List.right_unique_forall₂' (fun entry a a' both both' => ?_) drawn drawn'
  obtain ⟨name, codec, simple, written⟩ := both
  obtain ⟨name', codec', simple', written'⟩ := both'
  obtain rfl := Option.some.inj (simple.symm.trans simple')
  exact Prod.ext (name.trans name'.symm) (Except.ok.inj (written.symm.trans written'))

theorem Draws.unique {items : List (Field × Value)} {first second : Forest}
    (drawn : Draws items first) (drawn' : Draws items second) : first = second := by
  induction drawn generalizing second with
  | nil =>
    cases drawn'
    rfl
  | value isAttribute _ ih => exact ih (drawn'.of_attribute isAttribute)
  | text element simple written _ ih =>
    obtain ⟨content, rest, rfl, written', below⟩ := drawn'.of_simple element simple
    obtain rfl := Except.ok.inj (written.symm.trans written')
    rw [ih below]
  | record element nested attributesDrawn _ _ ihInside ihRest =>
    obtain ⟨attributes, inside, rest, rfl, attributesDrawn', insideDrawn, below⟩ :=
      drawn'.of_nested element nested
    rw [attributesDrawn.unique attributesDrawn', ihInside insideDrawn, ihRest below]

theorem Field.Steady.write_of_rereads {f : Field} {codec : Codec} {v w : Value} {text : String}
    (steady : f.Steady codec v) (rereads : f.Rereads codec v w) (written : codec.write v = .ok text) :
    codec.write w = .ok text ∧ (f.key.occurrence = .optional → w ≠ .absent) := by
  obtain ⟨text', u, written', isItem, wrote, present⟩ := steady
  obtain rfl := rereads.unique ⟨text', written', isItem⟩
  obtain rfl := Except.ok.inj (written.symm.trans written')
  exact ⟨wrote, present⟩

theorem Field.Steady.not_dropped {f : Field} {codec : Codec} {v : Value}
    (steady : f.Steady codec v) (rereads : f.Rereads codec v .absent) :
    f.key.occurrence ≠ .optional := by
  intro optional
  have ⟨text, _, written, _⟩ := steady
  exact (steady.write_of_rereads rereads written).2 optional rfl

theorem Again.drawsAttributes {items others : List (Field × Value)} (again : Again items others)
    (steady : Conforms Field.Steady items) {attributes : List (String × String)}
    (drawn : DrawsAttributes items attributes) : DrawsAttributes others attributes := by
  unfold DrawsAttributes at drawn ⊢
  induction again generalizing attributes with
  | nil => exact drawn
  | @simple f codec v w items others isSimple rereads _ _ ih =>
    obtain ⟨item, below⟩ := conforms_cons.mp steady
    cases isAttribute : f.key.isAttribute with
    | false =>
      rw [List.filter_cons_of_neg (by simp [isAttribute])] at drawn ⊢
      exact ih below drawn
    | true =>
      rw [List.filter_cons_of_pos (by simp [isAttribute])] at drawn ⊢
      obtain ⟨a, rest, ⟨name, codec', simple', written⟩, others, rfl⟩ :=
        List.forall₂_cons_left_iff.mp drawn
      obtain rfl := Option.some.inj (isSimple.symm.trans simple')
      have wrote := ((item.of_simple isSimple).write_of_rereads rereads written).1
      exact .cons ⟨name, codec, isSimple, wrote⟩ (ih below others)
  | dropped isSimple rereads optional =>
    have item := (conforms_cons.mp steady).1
    exact absurd optional ((item.of_simple isSimple).not_dropped rereads)
  | @record f inner values values' items others nested _ _ _ _ ih =>
    have below := (conforms_cons.mp steady).2
    cases isAttribute : f.key.isAttribute with
    | false =>
      rw [List.filter_cons_of_neg (by simp [isAttribute])] at drawn ⊢
      exact ih below drawn
    | true =>
      rw [List.filter_cons_of_pos (by simp [isAttribute])] at drawn
      obtain ⟨a, rest, ⟨_, codec, simple, _⟩, _⟩ := List.forall₂_cons_left_iff.mp drawn
      exact absurd nested (Field.not_nested_of_simple simple)

theorem Again.draws {items others : List (Field × Value)} (again : Again items others)
    (steady : Conforms Field.Steady items) {row : Forest} (drawn : Draws items row) :
    Draws others row := by
  induction again generalizing row with
  | nil => exact drawn
  | @simple f codec v w items others isSimple rereads _ _ ih =>
    obtain ⟨item, below⟩ := conforms_cons.mp steady
    cases isAttribute : f.key.isAttribute with
    | true => exact .value isAttribute (ih below (drawn.of_attribute isAttribute))
    | false =>
      obtain ⟨content, rest, rfl, written, restDrawn⟩ := drawn.of_simple isAttribute isSimple
      have wrote := ((item.of_simple isSimple).write_of_rereads rereads written).1
      exact .text isAttribute isSimple wrote (ih below restDrawn)
  | dropped isSimple rereads optional =>
    have item := (conforms_cons.mp steady).1
    exact absurd optional ((item.of_simple isSimple).not_dropped rereads)
  | @record f inner values values' items others nested _ inside _ ihInside ihRest =>
    obtain ⟨item, below⟩ := conforms_cons.mp steady
    obtain ⟨_, same, _, steadyInside⟩ := item.of_nested nested
    obtain rfl := (Value.record.inj same).2
    cases isAttribute : f.key.isAttribute with
    | true => exact .value isAttribute (ihRest below (drawn.of_attribute isAttribute))
    | false =>
      obtain ⟨attributes, row, rest, rfl, attributesDrawn, insideDrawn, restDrawn⟩ :=
        drawn.of_nested isAttribute nested
      exact .record isAttribute nested (inside.drawsAttributes steadyInside attributesDrawn)
        (ihInside steadyInside insideDrawn) (ihRest below restDrawn)

/-! ### Records that were read -/

/-- The numbers among the defaults of fields have texts that denote numbers of the same texts. -/
def Field.DefaultsRepeat (fields : List Field) : Prop := ∀ f ∈ fields, f.default.Repeats

/-- The items of a record that was read are such that documents may give them, at whatever depth. -/
theorem RecordType.holds_ready {type : RecordType} (fitting : type.Throughout Field.Fitting)
    (defaultNumbers : type.Throughout Field.DefaultsRepeat) {v : Value} (reads : type.Reads v)
    (numbers : v.Repeats) : type.Holds Field.Ready v := by
  induction fitting generalizing v with
  | @mk className typeName fields own below ih =>
    have sound : (RecordType.mk className typeName fields).Throughout Field.Sound :=
      RecordType.Throughout.sound (.mk own below)
    obtain ⟨writable, typed⟩ := own
    obtain ⟨values, rfl, shaped, _, received⟩ := RecordType.items_of_reads sound reads
    refine ⟨values, rfl, shaped, conforms_iff.mpr ?_⟩
    rintro ⟨f, item⟩ member
    have belongs : f ∈ fields := mem_presentItems member
    have itemNumbers : item.Repeats :=
      fun x isReal => numbers x (mem_reals_of_mem_presentItems member isReal)
    rcases received _ member with ⟨codec, simple, given⟩ | ⟨inner, nested, innerReads⟩
    · obtain ⟨proper, flat, default⟩ := typed f belongs codec simple
      exact .inl ⟨codec, simple, simple, proper, flat, writable.1.single f belongs,
        writable.1.plain f belongs, default, defaultNumbers.fields f belongs, given, itemNumbers⟩
    · exact .inr ⟨inner, nested,
        ih f belongs inner nested (defaultNumbers.inner belongs nested) innerReads itemNumbers⟩

def Field.Lasts (f : Field) (codec : Codec) (v : Value) : Prop :=
  f.Ready codec v ∧ f.Settles codec v

theorem Field.Lasts.formatted {f : Field} {codec : Codec} {v : Value} (lasts : f.Lasts codec v) :
    Formatted f codec v := by
  obtain ⟨text, written, _⟩ := lasts.1.exists_text lasts.2
  exact ⟨text, written, Codec.legible_of_write lasts.1.proper lasts.1.yields written⟩

/-- The items that take the place of items that last do so too, and are written as they were from
then on. -/
theorem Again.lasts {items others : List (Field × Value)} (again : Again items others)
    (lasts : Conforms Field.Lasts items) :
    Conforms (fun f codec v => f.Lasts codec v ∧ f.Steady codec v) others :=
  again.conforms lasts fun _ _ _ _ both rereads present =>
    ⟨⟨both.1.rereads_ready both.2 rereads present, both.1.rereads_settles both.2 rereads⟩,
      both.1.steady both.2 rereads present⟩

end XmlRecords
