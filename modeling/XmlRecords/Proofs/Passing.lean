import XmlRecords.Proofs.SameSchema

/-!
The checks pass on a schema whose attributes are of simple types exactly if it passes each of them, and
then they pass on every schema that agrees with it.
-/

set_option autoImplicit false
set_option relaxedAutoImplicit false

namespace XmlRecords.Schema

open Relation

structure Passes (s : Schema) : Prop where
  rootElement : s.rootElement.isFalsy = false
  checked : s.Checked
  apart : ∀ t ∈ s.declared, t.className ∉ s.enumerations.map Enumerated.className
  defaults : ∀ t ∈ s.declared, ∀ a ∈ t.attributes, s.DefaultFits a

def Plain (s : Schema) : Prop := ∀ t ∈ s.declared, ∀ a ∈ t.attributes, a.type.IsSimple

variable {s s' : Schema}

theorem rootElement_of_checkRoot (passed : s.checkRoot = .ok ()) : s.rootElement.isFalsy = false := by
  unfold checkRoot at passed
  split at passed
  · cases passed
  · rename_i present
    exact Bool.eq_false_iff.mpr present

theorem checkRoot_eq_ok (rootElement : s.rootElement.isFalsy = false)
    (rootType : ∃ t ∈ s.declared, t.id = s.rootType) : s.checkRoot = .ok () := by
  have present : s.declared.any (·.id == s.rootType) = true := by simpa using rootType
  rw [checkRoot, rootElement, present]
  rfl

theorem Checked.checkEnumerations (checked : s.Checked) :
    checkEnumerations s.name [] s.enumerations = .ok (s.enumerations.map Enumerated.className) :=
  (@decides_checkEnumerations s.name [] _ checked.enumerations).1
    ⟨fresh_empty.mpr checked.enumerationClasses, checked.tags⟩

theorem apart_of_validate (valid : s.validate = .ok ()) :
    ∀ t ∈ s.declared, t.className ∉ s.enumerations.map Enumerated.className := by
  have checked := checked_of_validate valid
  obtain ⟨_, _, valid⟩ := bind_eq_ok_iff.mp valid
  obtain ⟨classes, enumerations, valid⟩ := bind_eq_ok_iff.mp valid
  obtain ⟨_, types, _⟩ := bind_eq_ok_iff.mp valid
  obtain rfl := Except.ok.inj (enumerations.symm.trans checked.checkEnumerations)
  exact (named_of_checkTypes types).1.2

/-- A schema whose attributes are of simple types is valid exactly if it passes every check. -/
theorem validate_eq_ok_iff_passes (plain : s.Plain) : s.validate = .ok () ↔ s.Passes := by
  constructor
  · intro passed
    have checked := checked_of_validate passed
    obtain ⟨_, root, valid⟩ := bind_eq_ok_iff.mp passed
    obtain ⟨classes, _, valid⟩ := bind_eq_ok_iff.mp valid
    obtain ⟨_, types, _⟩ := bind_eq_ok_iff.mp valid
    have decidesTypes := @decides_checkTypes s classes _ (fun t member => (checked.types t member).name)
      (fun t member => (checked.types t member).fields) plain
    obtain ⟨_, each⟩ := decidesTypes.holds types
    exact ⟨rootElement_of_checkRoot root, checked, apart_of_validate passed,
      fun t member => (each t member).2⟩
  · intro h
    have types := @decides_checkTypes s (s.enumerations.map Enumerated.className) _
      (fun t member => (h.checked.types t member).name)
      (fun t member => (h.checked.types t member).fields) plain
    refine bind_eq_ok_iff.mpr ⟨(), checkRoot_eq_ok h.rootElement h.checked.rootType, ?_⟩
    refine bind_eq_ok_iff.mpr ⟨_, h.checked.checkEnumerations, ?_⟩
    refine bind_eq_ok_iff.mpr ⟨(), types.1 ⟨⟨h.checked.typeClasses, h.apart⟩, fun t member =>
      ⟨(h.checked.types t member).distinct, h.defaults t member⟩⟩, ?_⟩
    exact decides_acyclic.1 h.checked.acyclic

/-! ### Schemas that agree -/

theorem codecOf_of_isSimple {bound : Label → Option Enumeration} {type : DeclaredType}
    (simple : type.IsSimple) (name name' : TypeId → Label) :
    codecOf bound type name = codecOf bound type name' := by
  rcases simple with single | ⟨item, rfl, single⟩
  · cases type with
    | list item => exact single.elim
    | complex id => exact single.elim
    | _ => rfl
  · cases item with
    | list inner => exact single.elim
    | complex id => exact single.elim
    | _ => rfl

theorem ComplexType.Same.fieldNames {types types' : List ComplexType} {t t' : ComplexType}
    (same : t.Same types types' t') : t.fieldNames = t'.fieldNames := by
  rw [ComplexType.fieldNames, ComplexType.fieldNames, same.attributes,
    map_eq_of_forall₂ same.elements fun _ _ e => e.name.symm]

def Paired (s s' : Schema) (id id' : TypeId) : Prop :=
  ∃ name, KnownAs s.declared id name ∧ KnownAs s'.declared id' name

namespace Same

theorem exists_counterpart (same : s.Same s') {t' : ComplexType} (member' : t' ∈ s'.declared) :
    ∃ t ∈ s.declared, t.qualifiedName = t'.qualifiedName := by
  obtain ⟨t, member, isName⟩ := List.mem_map.mp
    (same.names.symm.subset (List.mem_map_of_mem (f := (·.qualifiedName)) member'))
  exact ⟨t, member, isName⟩

/-- A type refers to the counterparts of those that its counterpart refers to. -/
theorem exists_refers (same : s.Same s') (closed : s.Closed) (closed' : s'.Closed)
    {a a' b' : TypeId} (paired : Paired s s' a a') (refers : s'.Refers a' b') :
    ∃ b, s.Refers a b ∧ Paired s s' b b' := by
  obtain ⟨name, ⟨t, member, rfl, isName⟩, ⟨t', member', rfl, isName'⟩⟩ := paired
  obtain ⟨u', found, reference⟩ := refers
  obtain rfl := Option.some.inj ((closed'.type? member').symm.trans found)
  obtain ⟨e', inside', isComplex⟩ := List.mem_filterMap.mp reference
  have content := same.types t member t' member' (isName.trans isName'.symm)
  obtain ⟨e, inside, sameElement⟩ := exists_of_forall₂_left content.elements.flip inside'
  have sameType := sameElement.type
  cases type' : e'.type with
  | complex id' =>
    rw [type'] at isComplex sameType
    obtain rfl := Option.some.inj isComplex
    cases type : e.type with
    | complex id =>
      rw [type] at sameType
      cases sameType with
      | simple simple =>
        rcases simple with single | ⟨item, isList, _⟩
        · exact single.elim
        · cases isList
      | @complex _ _ label known known' =>
        refine ⟨id, ⟨t, closed.type? member, List.mem_filterMap.mpr ⟨e, inside, ?_⟩⟩,
          label, known, known'⟩
        simp only [type]
    | _ =>
      rw [type] at sameType
      cases sameType
  | _ =>
    rw [type'] at isComplex
    cases isComplex

theorem exists_leads (same : s.Same s') (closed : s.Closed) (closed' : s'.Closed)
    {a a' b' : TypeId} (paired : Paired s s' a a') (leads : TransGen s'.Refers a' b') :
    ∃ b, TransGen s.Refers a b ∧ Paired s s' b b' := by
  induction leads with
  | single refers =>
    obtain ⟨b, step, next⟩ := same.exists_refers closed closed' paired refers
    exact ⟨b, .single step, next⟩
  | tail _ refers ih =>
    obtain ⟨b, steps, here⟩ := ih
    obtain ⟨c, step, next⟩ := same.exists_refers closed closed' here refers
    exact ⟨c, .tail steps step, next⟩

theorem exists_paired (same : s.Same s') {id' : TypeId} (member' : id' ∈ s'.declared.map (·.id)) :
    ∃ t ∈ s.declared, Paired s s' t.id id' := by
  obtain ⟨t', inside', rfl⟩ := List.mem_map.mp member'
  obtain ⟨t, inside, isName⟩ := same.exists_counterpart inside'
  exact ⟨t, inside, t.qualifiedName, .of_mem inside, isName ▸ .of_mem inside'⟩

theorem eq_of_paired (same : s.Same s') (closed' : s'.Closed) {a b id' : TypeId}
    (first : Paired s s' a id') (second : Paired s s' b id') : a = b := by
  obtain ⟨_, ⟨t, ht, rfl, rfl⟩, ⟨t', ht', isId, isName⟩⟩ := first
  obtain ⟨_, ⟨u, hu, rfl, rfl⟩, ⟨u', hu', isId', isName'⟩⟩ := second
  obtain rfl := List.inj_on_of_nodup_map closed'.ids ht' hu' (isId.trans isId'.symm)
  rw [List.inj_on_of_nodup_map same.distinct ht hu (isName.symm.trans isName')]

theorem acyclic (same : s.Same s') (closed : s.Closed) (closed' : s'.Closed)
    (acyclic : s.Acyclic) : s'.Acyclic := by
  rintro id' ⟨t', inside', leads⟩ cycle
  have member' := closed'.mem_of_leads (List.mem_map_of_mem (f := (·.id)) inside') leads
  obtain ⟨t, inside, paired⟩ := same.exists_paired member'
  obtain ⟨b, back, pairedBack⟩ := same.exists_leads closed closed' paired cycle
  rw [← same.eq_of_paired closed' paired pairedBack] at back
  exact acyclic t.id ⟨t, inside, .refl⟩ back

theorem classNames (same : s.Same s') :
    (s.declared.map ComplexType.className).Perm (s'.declared.map ComplexType.className) := by
  have perm := same.names.map fun label => Identifier.recordClass label.shown
  rwa [List.map_map, List.map_map] at perm

/-- A schema that agrees with one that passes the checks passes them too. -/
theorem passes (same : s.Same s') (closed : s.Closed) (closed' : s'.Closed) (plain : s.Plain)
    (passes : s.Passes) : s'.Passes where
  rootElement := same.rootElement ▸ passes.rootElement
  checked := {
    rootType := by
      obtain ⟨_, _, ⟨t', inside', isId, _⟩⟩ := same.rootType
      exact ⟨t', inside', isId⟩
    enumerations := fun e member =>
      passes.checked.enumerations e (same.enumerations.mem_iff.mpr member)
    enumerationClasses :=
      (same.enumerations.map Enumerated.className).nodup_iff.mp passes.checked.enumerationClasses
    tags := fun e member => passes.checked.tags e (same.enumerations.mem_iff.mpr member)
    types := by
      intro t' inside'
      obtain ⟨t, inside, isName⟩ := same.exists_counterpart inside'
      have named := passes.checked.types t inside
      have fields := (same.types t inside t' inside' isName).fieldNames
      exact ⟨isName ▸ named.name, fields ▸ named.fields, fields ▸ named.distinct⟩
    typeClasses := same.classNames.nodup_iff.mp passes.checked.typeClasses
    acyclic := same.acyclic closed closed' passes.checked.acyclic }
  apart := by
    intro t' inside' taken
    obtain ⟨t, inside, isName⟩ := same.exists_counterpart inside'
    apply passes.apart t inside
    rw [ComplexType.className, isName]
    exact ((same.enumerations.map Enumerated.className).mem_iff).mpr taken
  defaults := by
    intro t' inside' a member'
    obtain ⟨t, inside, isName⟩ := same.exists_counterpart inside'
    rw [← (same.types t inside t' inside' isName).attributes] at member'
    intro text given tags
    obtain ⟨codec, v, isCodec, read⟩ := passes.defaults t inside a member' text given tags
    exact ⟨codec, v, codecOf_of_isSimple (plain t inside a member') _ _ ▸ isCodec, read⟩

end Same

end XmlRecords.Schema
