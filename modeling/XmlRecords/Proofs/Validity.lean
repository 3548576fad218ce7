import XmlRecords.Proofs.Binding
import XmlRecords.Proofs.Dependency

/-!
Which schemas are valid: a schema passes its checks exactly if it is well-formed, and whatever else
is wrong with it is reported as a problem.
-/

set_option autoImplicit false
set_option relaxedAutoImplicit false

namespace XmlRecords.Schema

open BoundSchema (textOf_eq_ok_iff)

/-! ### Checks -/

/-- A check gives a result exactly if something holds, and reports a problem otherwise. -/
def Decides {α : Type} (check : Except Fault α) (result : α) (P : Prop) : Prop :=
  (P → check = .ok result) ∧ (¬ P → ∃ problem, check = .error (.problem problem))

namespace Decides

variable {α β : Type} {check : Except Fault α} {result : α} {P Q : Prop}

theorem congr (h : Decides check result P) (same : P ↔ Q) : Decides check result Q := by
  rwa [← propext same]

theorem ok (result : α) : Decides (.ok result) result True :=
  ⟨fun _ => rfl, fun absurd => absurd.elim trivial⟩

theorem holds (h : Decides check result P) {other : α} (passed : check = .ok other) : P := by
  by_contra failed
  obtain ⟨problem, refused⟩ := h.2 failed
  rw [refused] at passed
  cases passed

theorem bind {next : α → Except Fault β} {final : β} (first : Decides check result P)
    (second : P → Decides (next result) final Q) : Decides (check >>= next) final (P ∧ Q) := by
  constructor
  · rintro ⟨hp, hq⟩
    exact bind_eq_ok_iff.mpr ⟨result, first.1 hp, (second hp).1 hq⟩
  · intro neither
    by_cases hp : P
    · rw [first.1 hp]
      exact (second hp).2 fun hq => neither ⟨hp, hq⟩
    · obtain ⟨problem, refused⟩ := first.2 hp
      rw [refused]
      exact ⟨problem, rfl⟩

theorem guard {c : Prop} [Decidable c] {cause : Cause} {location : Label}
    (rest : Decides check result Q) :
    Decides (if c then .error (.located cause location) else check) result (¬ c ∧ Q) := by
  by_cases hc : c
  · rw [if_pos hc]
    exact ⟨fun both => absurd hc both.1, fun _ => ⟨⟨cause, location⟩, rfl⟩⟩
  · rw [if_neg hc]
    exact rest.congr (by simp [hc])

theorem forM {f : α → Except Fault Unit} {R : α → Prop} {xs : List α}
    (each : ∀ x ∈ xs, Decides (f x) () (R x)) : Decides (xs.forM f) () (∀ x ∈ xs, R x) := by
  induction xs with
  | nil => exact (Decides.ok ()).congr (by simp)
  | cons x xs ih =>
    have first := each x List.mem_cons_self
    have rest := ih fun y member => each y (List.mem_cons_of_mem x member)
    exact (first.bind fun _ => rest).congr (by simp)

end Decides

def Fresh {α : Type} (name : α → String) (taken : List String) (items : List α) : Prop :=
  (items.map name).Nodup ∧ ∀ item ∈ items, name item ∉ taken

section Fresh

variable {α : Type} {name : α → String} {taken : List String}

theorem fresh_nil : Fresh name taken [] := ⟨List.nodup_nil, by simp⟩

theorem fresh_cons {item : α} {items : List α} :
    Fresh name taken (item :: items) ↔
      name item ∉ taken ∧ Fresh name (taken ++ [name item]) items := by
  simp only [Fresh, List.map_cons, List.nodup_cons, List.forall_mem_cons, List.mem_append,
    List.mem_singleton, not_or, List.mem_map, not_exists, not_and]
  constructor
  · rintro ⟨⟨apart, distinct⟩, free, others⟩
    exact ⟨free, distinct, fun other member => ⟨others other member, apart other member⟩⟩
  · rintro ⟨free, distinct, others⟩
    exact ⟨⟨fun other member => (others other member).2, distinct⟩, free,
      fun other member => (others other member).1⟩

theorem fresh_empty {items : List α} : Fresh name [] items ↔ (items.map name).Nodup := by
  simp [Fresh]

end Fresh

/-! ### Well-formed schemas -/

def DeclaredType.IsSingle : DeclaredType → Prop
  | .primitive _ => True
  | .enumerated _ => True
  | _ => False

def DeclaredType.IsSimple (type : DeclaredType) : Prop :=
  type.IsSingle ∨ ∃ item, type = .list item ∧ item.IsSingle

def Enumerated.className (e : Enumerated) : String := Identifier.recordClass e.name.shown

def ComplexType.className (t : ComplexType) : String :=
  Identifier.recordClass t.qualifiedName.shown

def fieldOf (label : Label) : String := Identifier.field label.shown

/-- A schema of the right kind: its names are texts, its attributes are of simple types and its root
is of a type that it knows. -/
structure Typed (s : Schema) : Prop where
  rootElement : ∃ name, s.rootElement = .text name
  rootType : ∃ t, s.type? s.rootType = some t
  enumerations : ∀ e ∈ s.enumerations, ∃ name, e.name = .text name
  types : ∀ t ∈ s.declared, ∃ name, t.qualifiedName = .text name
  fields : ∀ t ∈ s.declared, ∀ label ∈ t.fieldNames, ∃ name, label = .text name
  attributes : ∀ t ∈ s.declared, ∀ a ∈ t.attributes, a.type.IsSimple

/-- The default of an attribute is a value of its type, unless that is of tags. -/
def DefaultFits (s : Schema) (a : Attribute) : Prop :=
  ∀ text, a.default = some text → a.type.holdsTags = false →
    ∃ codec v, codecOf (fun _ => none) a.type s.typeName = .ok codec ∧ codec.read text = .ok v

/-- A schema with a root of a declared type, distinct class names, distinct tags and field names,
defaults that fit, and no type inside itself. -/
structure WellFormed (s : Schema) : Prop where
  rootElement : s.rootElement ≠ .text ""
  rootType : ∃ t ∈ s.declared, t.id = s.rootType
  enumerationClasses : (s.enumerations.map Enumerated.className).Nodup
  tags : ∀ e ∈ s.enumerations,
    (e.values.map Identifier.tag).Nodup ∧ "UNKNOWN" ∉ e.values.map Identifier.tag
  typeClasses : (s.declared.map ComplexType.className).Nodup
  apart : ∀ t ∈ s.declared, t.className ∉ s.enumerations.map Enumerated.className
  fields : ∀ t ∈ s.declared, (t.fieldNames.map fieldOf).Nodup
  defaults : ∀ t ∈ s.declared, ∀ a ∈ t.attributes, s.DefaultFits a
  acyclic : s.Acyclic

variable {s : Schema} {location : Label}

/-! ### One check after another -/

theorem decides_checkRoot (typed : s.Typed) :
    Decides s.checkRoot () (s.rootElement ≠ .text "" ∧ ∃ t ∈ s.declared, t.id = s.rootType) := by
  obtain ⟨name, isName⟩ := typed.rootElement
  obtain ⟨t, known⟩ := typed.rootType
  have falsy : s.rootElement.isFalsy = true ↔ s.rootElement = .text "" := by
    rw [isName]
    simp [Json.isFalsy]
  have declared : s.declared.any (·.id == s.rootType) = true ↔
      ∃ t ∈ s.declared, t.id = s.rootType := by simp
  rw [checkRoot, known, ← declared, Ne, ← falsy]
  apply Decides.guard
  by_cases present : s.declared.any (·.id == s.rootType) = true
  · rw [if_pos present]
    exact (Decides.ok ()).congr (by simp [present])
  · rw [if_neg present]
    exact ⟨fun other => absurd other present, fun _ => ⟨_, rfl⟩⟩

theorem find?_eq_none_iff {α : Type} {seen : List (String × α)} {name : String} :
    seen.find? (·.1 == name) = none ↔ name ∉ seen.map (·.1) := by
  rw [List.find?_eq_none, List.mem_map]
  constructor
  · rintro absent ⟨entry, member, same⟩
    exact absent entry member (by simp [same])
  · intro absent entry member same
    exact absent ⟨entry, member, by simpa using same⟩

theorem decides_checkValues {e : Enumerated} {seen : List (String × String)}
    (own : ∀ entry ∈ seen, entry.1 = Identifier.tag entry.2) (values : List String) :
    Decides (checkValues e location seen values) ()
      (Fresh Identifier.tag (seen.map (·.1)) values ∧ "UNKNOWN" ∉ values.map Identifier.tag) := by
  induction values generalizing seen with
  | nil => exact (Decides.ok ()).congr (by simp [fresh_nil])
  | cons value values ih =>
    have ownNext : ∀ entry ∈ seen ++ [(Identifier.tag value, value)],
        entry.1 = Identifier.tag entry.2 := by
      intro entry member
      rcases List.mem_append.mp member with earlier | last
      · exact own entry earlier
      · rw [List.mem_singleton.mp last]
    have below := ih ownNext
    rw [List.map_append, List.map_singleton] at below
    -- a value that was seen has a tag that was seen
    have repeated : seen.any (·.2 == value) = true → Identifier.tag value ∈ seen.map (·.1) := by
      intro any
      obtain ⟨entry, member, same⟩ := List.any_eq_true.mp any
      refine List.mem_map.mpr ⟨entry, member, ?_⟩
      rw [own entry member, beq_iff_eq.mp same]
    rw [checkValues]
    refine (Decides.guard (Decides.guard (show Decides _ () (Identifier.tag value ∉ seen.map (·.1) ∧
      Fresh Identifier.tag (seen.map (·.1) ++ [Identifier.tag value]) values ∧
      "UNKNOWN" ∉ values.map Identifier.tag) from ?_))).congr ?_
    · rw [← find?_eq_none_iff]
      cases found : seen.find? (·.1 == Identifier.tag value) with
      | none => exact below.congr (by simp)
      | some entry => exact ⟨fun none => absurd none.1 (by simp), fun _ => ⟨_, rfl⟩⟩
    · rw [fresh_cons, List.map_cons, List.mem_cons, not_or]
      constructor
      · rintro ⟨_, unreserved, free, fresh, others⟩
        exact ⟨⟨free, fresh⟩, Ne.symm unreserved, others⟩
      · rintro ⟨⟨free, fresh⟩, unreserved, others⟩
        exact ⟨fun any => free (repeated any), Ne.symm unreserved, free, fresh, others⟩

theorem decides_textOf {label : Label} {name : String} (isText : label = .text name) :
    Decides (textOf label) name True := by
  rw [isText]
  exact .ok name

theorem decides_checkEnumerations {taken : List String} {es : List Enumerated}
    (texts : ∀ e ∈ es, ∃ name, e.name = .text name) :
    Decides (checkEnumerations location taken es) (taken ++ es.map Enumerated.className)
      (Fresh Enumerated.className taken es ∧
        ∀ e ∈ es, (e.values.map Identifier.tag).Nodup ∧
          "UNKNOWN" ∉ e.values.map Identifier.tag) := by
  induction es generalizing taken with
  | nil =>
    rw [List.map_nil, List.append_nil]
    exact (Decides.ok taken).congr (by simp [fresh_nil])
  | cons e es ih =>
    obtain ⟨name, isName⟩ := texts e List.mem_cons_self
    have isClass : e.className = Identifier.recordClass name := by
      rw [Enumerated.className, isName, Json.shown]
    have values := @decides_checkValues location e [] (by simp) e.values
    have below := @ih (taken ++ [e.className]) fun other member =>
      texts other (List.mem_cons_of_mem e member)
    rw [List.append_assoc, List.singleton_append] at below
    rw [isClass] at below
    rw [checkEnumerations, List.map_cons, isClass]
    refine ((decides_textOf isName).bind fun _ =>
      Decides.guard (values.bind fun _ => below)).congr ?_
    rw [List.map_nil, fresh_empty, fresh_cons, isClass, List.forall_mem_cons]
    simp only [true_and, List.contains_iff_mem]
    constructor
    · rintro ⟨free, own, fresh, others⟩
      exact ⟨⟨free, fresh⟩, own, others⟩
    · rintro ⟨⟨free, fresh⟩, own, others⟩
      exact ⟨free, own, fresh, others⟩

theorem decides_checkFields {seen : List (String × Label)} {labels : List Label}
    (texts : ∀ label ∈ labels, ∃ name, label = .text name) :
    Decides (checkFields location seen labels) () (Fresh fieldOf (seen.map (·.1)) labels) := by
  induction labels generalizing seen with
  | nil => exact (Decides.ok ()).congr (by simp [fresh_nil])
  | cons label labels ih =>
    obtain ⟨name, isName⟩ := texts label List.mem_cons_self
    have isField : fieldOf label = Identifier.field name := by
      rw [fieldOf, isName, Json.shown]
    have below := @ih (seen ++ [(fieldOf label, label)]) fun other member =>
      texts other (List.mem_cons_of_mem label member)
    rw [List.map_append, List.map_singleton, isField] at below
    rw [checkFields]
    refine ((decides_textOf isName).bind fun _ =>
      show Decides _ () (Identifier.field name ∉ seen.map (·.1) ∧
        Fresh fieldOf (seen.map (·.1) ++ [Identifier.field name]) labels) from ?_).congr ?_
    · dsimp only
      rw [← find?_eq_none_iff]
      cases found : seen.find? (·.1 == Identifier.field name) with
      | none => exact below.congr (by simp)
      | some entry => exact ⟨fun none => absurd none.1 (by simp), fun _ => ⟨_, rfl⟩⟩
    · rw [fresh_cons, isField, true_and]

/-- What a built-in type refuses is unsuitable, not of a wrong kind. -/
theorem isUnsuitable_of_read {p : Primitive} {text : String} {fault : CodecFault}
    (refused : p.codec.read text = .error fault) : fault.isUnsuitable = true := by
  have integer {width : IntegerWidth} (refused : Codec.readInteger width text = .error fault) :
      fault.isUnsuitable = true := by
    unfold Codec.readInteger integerOf at refused
    split at refused
    · split at refused
      · rename_i given
        obtain rfl := Except.error.inj refused
        split at given
        · cases given
        · obtain rfl := Except.error.inj given
          rfl
        · obtain rfl := Except.error.inj given
          rfl
      · split at refused
        · cases refused
        · obtain rfl := Except.error.inj refused
          rfl
    · obtain rfl := Except.error.inj refused
      rfl
  have real {width : RealWidth} (refused : Codec.readReal width text = .error fault) :
      fault.isUnsuitable = true := by
    unfold Codec.readReal at refused
    split at refused
    · cases refused
    · obtain rfl := Except.error.inj refused
      rfl
  cases p with
  | bool => cases refused
  | string => cases refused
  | int32 => exact integer refused
  | int64 => exact integer refused
  | uint32 => exact integer refused
  | float => exact real refused
  | double => exact real refused

/-- The codec of a simple type without tags needs no enumerations, and what it refuses is
unsuitable. -/
theorem exists_codec_of_simple {type : DeclaredType} (simple : type.IsSimple)
    (plain : type.holdsTags = false) (name : TypeId → Label) :
    ∃ codec, codecOf (fun _ => none) type name = .ok codec ∧
      ∀ text fault, codec.read text = .error fault → fault.isUnsuitable = true := by
  rcases simple with single | ⟨item, rfl, single⟩
  · cases type with
    | primitive p => exact ⟨p.codec, rfl, fun _ _ => isUnsuitable_of_read⟩
    | enumerated e => cases plain
    | list item => exact single.elim
    | complex id => exact single.elim
  · cases item with
    | primitive p =>
      refine ⟨.list p.codec, rfl, fun text fault refused => ?_⟩
      rw [Codec.read, map_eq_error_iff] at refused
      obtain ⟨token, _, refused⟩ := exists_of_mapM_eq_error refused
      exact isUnsuitable_of_read refused
    | enumerated e => cases plain
    | list inner => exact single.elim
    | complex id => exact single.elim

theorem decides_checkDefault {a : Attribute} (simple : a.type.IsSimple) :
    Decides (s.checkDefault location a) () (s.DefaultFits a) := by
  rw [checkDefault, DefaultFits]
  cases given : a.default with
  | none => exact (Decides.ok ()).congr (by simp)
  | some text =>
    cases tags : a.type.holdsTags with
    | true => exact (Decides.ok ()).congr (by simp)
    | false =>
      obtain ⟨codec, isCodec, unsuitable⟩ := exists_codec_of_simple simple tags s.typeName
      have reads : (∃ v, codec.read text = .ok v) ↔ ∀ raw, some text = some raw → false = false →
          ∃ codec v, codecOf (fun _ => none) a.type s.typeName = .ok codec ∧
            codec.read raw = .ok v := by
        simp [isCodec]
      rw [← reads]
      simp only [isCodec, bind, Except.bind, Bool.false_eq_true, if_false]
      cases read : codec.read text with
      | ok v => exact (Decides.ok ()).congr (by simp)
      | error fault =>
        simp only [unsuitable text fault read, if_true]
        exact ⟨fun other => absurd other (by simp), fun _ => ⟨_, rfl⟩⟩

theorem decides_checkTypes {taken : List String} {ts : List ComplexType}
    (types : ∀ t ∈ ts, ∃ name, t.qualifiedName = .text name)
    (fields : ∀ t ∈ ts, ∀ label ∈ t.fieldNames, ∃ name, label = .text name)
    (attributes : ∀ t ∈ ts, ∀ a ∈ t.attributes, a.type.IsSimple) :
    Decides (s.checkTypes taken ts) ()
      (Fresh ComplexType.className taken ts ∧ ∀ t ∈ ts,
        (t.fieldNames.map fieldOf).Nodup ∧ ∀ a ∈ t.attributes, s.DefaultFits a) := by
  induction ts generalizing taken with
  | nil => exact (Decides.ok ()).congr (by simp [fresh_nil])
  | cons t ts ih =>
    obtain ⟨name, isName⟩ := types t List.mem_cons_self
    have isClass : t.className = Identifier.recordClass name := by
      rw [ComplexType.className, isName, Json.shown]
    have names := @decides_checkFields t.qualifiedName [] _ (fields t List.mem_cons_self)
    have defaults := Decides.forM fun a member =>
      @decides_checkDefault s t.qualifiedName a (attributes t List.mem_cons_self a member)
    have below := @ih (taken ++ [t.className])
      (fun other member => types other (List.mem_cons_of_mem t member))
      (fun other member => fields other (List.mem_cons_of_mem t member))
      fun other member => attributes other (List.mem_cons_of_mem t member)
    rw [isClass] at below
    rw [checkTypes]
    refine ((decides_textOf isName).bind fun _ =>
      Decides.guard (names.bind fun _ => defaults.bind fun _ => below)).congr ?_
    rw [List.map_nil, fresh_empty, fresh_cons, isClass, List.forall_mem_cons]
    simp only [true_and, List.contains_iff_mem]
    tauto

theorem decides_acyclic : Decides (do let _ ← s.dependencyIds) () s.Acyclic := by
  rw [← exists_dependencyIds_iff]
  cases walked : s.dependencyIds with
  | ok ids => exact (Decides.ok ()).congr (by simp)
  | error fault =>
    obtain ⟨problem, rfl⟩ := problem_of_dependencyIds walked
    exact ⟨fun other => absurd other (by simp), fun _ => ⟨problem, rfl⟩⟩

theorem decides_validate (typed : s.Typed) : Decides s.validate () s.WellFormed := by
  have root := decides_checkRoot typed
  have enumerations := @decides_checkEnumerations s.name [] _ typed.enumerations
  have types := @decides_checkTypes s (s.enumerations.map Enumerated.className) _ typed.types
    typed.fields typed.attributes
  rw [List.nil_append] at enumerations
  refine (root.bind fun _ => enumerations.bind fun _ => types.bind fun _ => decides_acyclic).congr ?_
  rw [fresh_empty, Fresh]
  constructor
  · rintro ⟨⟨rootElement, rootType⟩, ⟨classes, tags⟩, ⟨⟨distinct, apart⟩, each⟩, acyclic⟩
    exact ⟨rootElement, rootType, classes, tags, distinct, apart, fun t member => (each t member).1,
      fun t member => (each t member).2, acyclic⟩
  · intro h
    exact ⟨⟨h.rootElement, h.rootType⟩, ⟨h.enumerationClasses, h.tags⟩, ⟨⟨h.typeClasses, h.apart⟩,
      fun t member => ⟨h.fields t member, h.defaults t member⟩⟩, h.acyclic⟩

/-- A schema is valid exactly if it is well-formed; a problem is reported in every other case. -/
theorem validate_eq_ok_iff (typed : s.Typed) :
    (s.validate = .ok () ↔ s.WellFormed) ∧
      (¬ s.WellFormed → ∃ problem, s.validate = .error (.problem problem)) := by
  have decides := decides_validate typed
  exact ⟨⟨decides.holds, decides.1⟩, decides.2⟩

theorem typed_shelfSchema : shelfSchema.Typed where
  rootElement := ⟨"shelf", rfl⟩
  rootType := ⟨_, rfl⟩
  enumerations := by simp [shelfSchema, kindDeclared]
  types := by simp [shelfSchema]
  fields := by simp [shelfSchema, ComplexType.fieldNames, or_imp, forall_and]
  attributes := by simp [shelfSchema, DeclaredType.IsSimple, DeclaredType.IsSingle]

def namesakes : Schema := {
  soleSchema "mark-up" with
  declared := [⟨0, .text "Sole", .text "Sole", none,
    [⟨.text "mark-up", .primitive .string, true, none⟩,
      ⟨.text "markUp", .primitive .string, false, none⟩], []⟩] }

theorem typed_namesakes : namesakes.Typed where
  rootElement := ⟨"sole", rfl⟩
  rootType := ⟨_, rfl⟩
  enumerations := by simp [namesakes, soleSchema]
  types := by simp [namesakes]
  fields := by simp [namesakes, ComplexType.fieldNames, or_imp, forall_and]
  attributes := by simp [namesakes, DeclaredType.IsSimple, DeclaredType.IsSingle]

theorem not_wellFormed_namesakes : ¬ namesakes.WellFormed := by
  intro wellFormed
  have distinct := wellFormed.fields _ (List.mem_singleton.mpr rfl)
  exact absurd distinct (by decide)

/-- Shelves pass the checks; a schema with two attributes of one field name is reported. -/
theorem wellFormed_shelf_and_problem_of_namesakes :
    shelfSchema.WellFormed ∧ ∃ problem, namesakes.validate = .error (.problem problem) :=
  ⟨(validate_eq_ok_iff typed_shelfSchema).1.mp rfl,
    (validate_eq_ok_iff typed_namesakes).2 not_wellFormed_namesakes⟩

/-! ### What checks leave

A schema that passes its checks need not be of the right kind: the types of its attributes are looked
at only for their defaults.
-/

/-- A complex type whose names are texts and give distinct field names. -/
structure ComplexType.Named (t : ComplexType) : Prop where
  name : ∃ name, t.qualifiedName = .text name
  fields : ∀ label ∈ t.fieldNames, ∃ name, label = .text name
  distinct : (t.fieldNames.map fieldOf).Nodup

/-- What the checks make sure of in every schema. -/
structure Checked (s : Schema) : Prop where
  rootType : ∃ t ∈ s.declared, t.id = s.rootType
  enumerations : ∀ e ∈ s.enumerations, ∃ name, e.name = .text name
  enumerationClasses : (s.enumerations.map Enumerated.className).Nodup
  tags : ∀ e ∈ s.enumerations,
    (e.values.map Identifier.tag).Nodup ∧ "UNKNOWN" ∉ e.values.map Identifier.tag
  types : ∀ t ∈ s.declared, t.Named
  typeClasses : (s.declared.map ComplexType.className).Nodup
  acyclic : s.Acyclic

theorem texts_of_checkEnumerations {taken classes : List String} {es : List Enumerated}
    (checked : checkEnumerations location taken es = .ok classes) :
    ∀ e ∈ es, ∃ name, e.name = .text name := by
  induction es generalizing taken with
  | nil => simp
  | cons e es ih =>
    rw [checkEnumerations] at checked
    obtain ⟨name, isText, checked⟩ := bind_eq_ok_iff.mp checked
    simp only at checked
    split at checked
    · cases checked
    · obtain ⟨_, _, checked⟩ := bind_eq_ok_iff.mp checked
      exact List.forall_mem_cons.mpr ⟨⟨name, textOf_eq_ok_iff.mp isText⟩, ih checked⟩

theorem texts_of_checkFields {seen : List (String × Label)} {labels : List Label}
    (checked : checkFields location seen labels = .ok ()) :
    ∀ label ∈ labels, ∃ name, label = .text name := by
  induction labels generalizing seen with
  | nil => simp
  | cons label labels ih =>
    rw [checkFields] at checked
    obtain ⟨name, isText, checked⟩ := bind_eq_ok_iff.mp checked
    simp only at checked
    split at checked
    · cases checked
    · exact List.forall_mem_cons.mpr ⟨⟨name, textOf_eq_ok_iff.mp isText⟩, ih checked⟩

theorem named_of_checkTypes {taken : List String} {ts : List ComplexType}
    (checked : s.checkTypes taken ts = .ok ()) :
    Fresh ComplexType.className taken ts ∧ ∀ t ∈ ts, t.Named := by
  induction ts generalizing taken with
  | nil => exact ⟨fresh_nil, by simp⟩
  | cons t ts ih =>
    rw [checkTypes] at checked
    obtain ⟨name, isText, checked⟩ := bind_eq_ok_iff.mp checked
    have isName := textOf_eq_ok_iff.mp isText
    have isClass : t.className = Identifier.recordClass name := by
      rw [ComplexType.className, isName, Json.shown]
    simp only [← isClass] at checked
    split at checked
    · cases checked
    · rename_i free
      obtain ⟨_, fields, checked⟩ := bind_eq_ok_iff.mp checked
      obtain ⟨_, _, checked⟩ := bind_eq_ok_iff.mp checked
      obtain ⟨fresh, others⟩ := ih checked
      have texts := texts_of_checkFields fields
      have distinct := fresh_empty.mp ((decides_checkFields texts).holds fields)
      exact ⟨fresh_cons.mpr ⟨by simpa using free, fresh⟩,
        List.forall_mem_cons.mpr ⟨⟨⟨name, isName⟩, texts, distinct⟩, others⟩⟩

theorem checked_of_validate (valid : s.validate = .ok ()) : s.Checked := by
  obtain ⟨_, root, valid⟩ := bind_eq_ok_iff.mp valid
  obtain ⟨classes, enumerations, valid⟩ := bind_eq_ok_iff.mp valid
  obtain ⟨_, types, ordered⟩ := bind_eq_ok_iff.mp valid
  have texts := texts_of_checkEnumerations enumerations
  obtain ⟨enumerationClasses, tags⟩ := (decides_checkEnumerations texts).holds enumerations
  obtain ⟨typeClasses, named⟩ := named_of_checkTypes types
  have rootType : ∃ t ∈ s.declared, t.id = s.rootType := by
    unfold checkRoot at root
    split at root
    · cases root
    · split at root
      · rename_i declared
        simpa using declared
      · split at root <;> cases root
  exact ⟨rootType, texts, fresh_empty.mp enumerationClasses, tags, named, typeClasses.1,
    decides_acyclic.holds ordered⟩

end XmlRecords.Schema
