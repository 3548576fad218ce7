import XmlRecords.Proofs.BoundNames
import XmlRecords.Proofs.ModuleStatements

/-!
What the statements of a records module are, by what they bind and import, and where its classes stand.
-/

set_option autoImplicit false
set_option relaxedAutoImplicit false

namespace XmlRecords.SourceText

/-! ### Splits -/

theorem exists_of_append_eq {α : Type} {first rest before after : List α} {b : α} (outside : b ∉ first)
    (split : first ++ rest = before ++ b :: after) :
    ∃ between, before = first ++ between ∧ rest = between ++ b :: after := by
  rcases List.append_eq_append_iff.mp split with ⟨between, isBefore, isRest⟩ | ⟨between, isFirst, isAfter⟩
  · exact ⟨between, isBefore, isRest⟩
  · cases between with
    | nil => exact ⟨[], by simpa using isFirst.symm, by simpa using isAfter.symm⟩
    | cons c cs =>
      obtain ⟨rfl, _⟩ := List.cons.inj isAfter
      exact absurd (isFirst ▸ List.mem_append_right _ List.mem_cons_self) outside

theorem exists_of_append_eq' {α : Type} {first rest before after : List α} {b : α} (outside : b ∉ rest)
    (split : first ++ rest = before ++ b :: after) : ∃ between, first = before ++ b :: between := by
  rcases List.append_eq_append_iff.mp split with ⟨between, _, isRest⟩ | ⟨between, isFirst, isAfter⟩
  · exact absurd (isRest ▸ List.mem_append_right _ List.mem_cons_self) outside
  · cases between with
    | nil =>
      have inside : b ∈ b :: after := List.mem_cons_self
      rw [isAfter] at inside
      exact absurd inside outside
    | cons c cs =>
      obtain ⟨rfl, _⟩ := List.cons.inj isAfter
      exact ⟨cs, isFirst⟩

end XmlRecords.SourceText

namespace XmlRecords.ModuleSource

open SourceText Schema
open Identifier (IsName)

/-! ### What statements bind -/

variable {s : Schema} {table : CodecTable} {classes : List RecordClass} {path : List Token}
  {words used : List String} {points : List Nat} {rootName root : String}

theorem wordsOf_listed (names : List String) :
    wordsOf (names.flatMap fun name => [.word name, .sign ',']) = names := by
  induction names with
  | nil => rfl
  | cons name names ih => exact congrArg (name :: ·) ih

theorem views_enumImportBlocks (leads : LeadsTo path words) : ∀ b ∈ enumImportBlocks path used,
    b.import? = some (words, used) ∧ b.binds = used ∧ b.className? = none ∧ b.assignment? = none := by
  have listed : wordsOf
      (Token.sign '(' :: used.flatMap (fun name => [Token.word name, .sign ',']) ++ [Token.sign ')']) = used := by
    rw [List.cons_append, wordsOf, List.filterMap_cons_none rfl, List.filterMap_append, ← wordsOf, wordsOf_listed]
    exact List.append_nil _
  obtain ⟨⟨word, rest, rfl⟩, apart, isWords⟩ := leads
  intro b member
  unfold enumImportBlocks at member
  split at member
  · cases member
  have isImport := @import?_importBlock _
    (Token.sign '(' :: used.flatMap (fun name => [Token.word name, .sign ',']) ++ [Token.sign ')']) apart
  rw [isWords, listed] at isImport
  rw [List.mem_singleton.mp member]
  refine ⟨isImport, ?_, rfl, rfl⟩
  rw [Block.binds, isImport]
  rfl

theorem flatMap_enumImportBlocks {β : Type} {take : Block → List β} {taken : List β}
    (nothing : used = [] → taken = []) (own : ∀ b ∈ enumImportBlocks path used, take b = taken) :
    (enumImportBlocks path used).flatMap take = taken := by
  unfold enumImportBlocks at own ⊢
  split
  · rename_i empty
    rw [nothing (List.isEmpty_iff.mp empty), List.flatMap_nil]
  · rename_i filled
    rw [if_neg filled] at own
    rw [List.flatMap_singleton, own _ (List.mem_singleton.mpr rfl)]

theorem binds_openingBlocks (leads : LeadsTo path words) :
    (openingBlocks points path used rootName).flatMap Block.binds =
      (standardImports.flatMap (·.declarations)).flatMap Declaration.boundNames ++ (used ++ ["ROOT_ELEMENT"]) := by
  have standard : standardBlocks.flatMap Block.binds =
      (standardImports.flatMap (·.declarations)).flatMap Declaration.boundNames := by decide
  have imports : (enumImportBlocks path used).flatMap Block.binds = used :=
    flatMap_enumImportBlocks id fun b member => (views_enumImportBlocks leads b member).2.1
  rw [openingBlocks, List.flatMap_cons, List.flatMap_append, List.flatMap_append, standard, imports]
  rfl

theorem className?_openingBlocks (leads : LeadsTo path words) :
    ∀ b ∈ openingBlocks points path used rootName, b.className? = none := by
  have standard : ∀ b ∈ standardBlocks, b.className? = none := by decide
  rw [openingBlocks]
  simp only [List.forall_mem_cons, List.forall_mem_append]
  exact ⟨rfl, standard, fun b member => (views_enumImportBlocks leads b member).2.2.1, rfl, List.forall_mem_nil _⟩

theorem views_constantBlock {name : String} (own : CodecTable.Private name) (value : List Token) :
    (constantBlock name value).assignment? = some (name, value) ∧ (constantBlock name value).binds = [name] ∧
      (constantBlock name value).className? = none ∧ (constantBlock name value).import? = none := by
  have other : name ≠ "from" := by
    rintro rfl
    exact absurd own.start (by decide)
  simp [Block.binds, constantBlock, Block.className?, Block.functionName?, Block.assignment?, Block.import?, other]

theorem binds_constantBlocks (own : ∀ name ∈ table.names, CodecTable.Private name) :
    (constantBlocks table).flatMap Block.binds = table.names := by
  rw [constantBlocks, List.flatMap_map, CodecTable.names, List.map_eq_flatMap]
  refine List.flatMap_congr fun entry member => ?_
  exact (views_constantBlock (own entry.1 (List.mem_map_of_mem (f := (·.1)) member)) entry.2.tokens).2.1

theorem className?_constantBlocks : ∀ b ∈ constantBlocks table, b.className? = none :=
  List.forall_mem_map.mpr fun entry _ => by simp [constantBlock, Block.className?]

theorem binds_classBlocks (classes : List RecordClass) :
    (classBlocks classes).flatMap Block.binds = classes.map (·.className) := by
  rw [classBlocks, List.flatMap_assoc, List.map_eq_flatMap]
  rfl

theorem views_functionBlocks (isRoot : IsName root) :
    (functionBlocks root).flatMap Block.binds = functionNames ∧
      ∀ b ∈ functionBlocks root, b.className? = none ∧ b.assignment? = none ∧ b.import? = none := by
  have spoken := spoken_documentFunctions (isWordText_of_isName isRoot)
  have views := fun m member => (views_methodBlocks (spoken m member)).2
  constructor
  · have own : ∀ m ∈ documentFunctions root, (methodBlocks m).flatMap Block.binds = [m.name] := by
      intro m member
      rw [← functionNames_methodBlocks (spoken m member), List.filterMap_eq_flatMap_toList]
      refine List.flatMap_congr fun b inside => ?_
      obtain ⟨noClass, noValue, _, noImport⟩ := views m member b inside
      simp [Block.binds, noClass, noValue, noImport]
    rw [functionBlocks, List.flatMap_assoc, List.flatMap_congr own]
    rfl
  · intro b member
    obtain ⟨m, isFunction, inside⟩ := List.mem_flatMap.mp member
    obtain ⟨noClass, noValue, _, noImport⟩ := views m isFunction b inside
    exact ⟨noClass, noValue, noImport⟩

/-! ### Classes in their place -/

theorem exists_class_of_classBlocks {before after : List Block} {b : Block} {own : String}
    (split : classBlocks classes = before ++ b :: after) (isClass : b.className? = some own) :
    ∃ (earlier : List RecordClass) (c : RecordClass) (later : List RecordClass),
      classes = earlier ++ c :: later ∧ b = c.classBlock ∧
      before = classBlocks earlier ++ [RecordClass.decoratorBlock] := by
  induction classes generalizing before with
  | nil => simp [classBlocks] at split
  | cons c classes ih =>
    have shape : classBlocks (c :: classes) =
        RecordClass.decoratorBlock :: c.classBlock :: classBlocks classes := rfl
    rw [shape] at split
    match before with
    | [] =>
      obtain ⟨rfl, _⟩ := List.cons.inj split
      cases isClass
    | [first] =>
      obtain ⟨rfl, second⟩ := List.cons.inj split
      obtain ⟨rfl, _⟩ := List.cons.inj second
      exact ⟨[], c, classes, rfl, rfl, rfl⟩
    | first :: second :: before =>
      obtain ⟨rfl, fromClass⟩ := List.cons.inj split
      obtain ⟨rfl, others⟩ := List.cons.inj fromClass
      obtain ⟨earlier, d, later, isClasses, rfl, rfl⟩ := ih others
      rw [isClasses]
      exact ⟨c :: earlier, d, later, rfl, rfl, rfl⟩

theorem exists_class_of_split (leads : LeadsTo path words) (isRoot : IsName root) {before after : List Block}
    {b : Block} {own : String} (isClass : b.className? = some own)
    (split : openingBlocks points path used rootName ++
      (constantBlocks table ++ (classBlocks classes ++ functionBlocks root)) = before ++ b :: after) :
    ∃ (earlier : List RecordClass) (c : RecordClass) (later : List RecordClass),
      classes = earlier ++ c :: later ∧ b = c.classBlock ∧
      before = openingBlocks points path used rootName ++
        (constantBlocks table ++ (classBlocks earlier ++ [RecordClass.decoratorBlock])) := by
  have outside {bs : List Block} (none : ∀ other ∈ bs, other.className? = none) : b ∉ bs := fun member => by
    rw [none b member] at isClass
    cases isClass
  have functions := outside fun other member => ((views_functionBlocks isRoot).2 other member).1
  obtain ⟨_, rfl, fromConstants⟩ := exists_of_append_eq (outside (className?_openingBlocks leads)) split
  obtain ⟨_, rfl, fromClasses⟩ := exists_of_append_eq (outside className?_constantBlocks) fromConstants
  obtain ⟨_, inClasses⟩ := exists_of_append_eq' functions fromClasses
  obtain ⟨earlier, c, later, isClasses, isBlock, rfl⟩ := exists_class_of_classBlocks inClasses isClass
  exact ⟨earlier, c, later, isClasses, isBlock, rfl⟩

end XmlRecords.ModuleSource
