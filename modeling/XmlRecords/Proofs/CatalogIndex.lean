import XmlRecords.Schema.Catalog

/-!
The index of a directory: the stems of the schema files in it, each with the last file of that stem.
-/

set_option autoImplicit false
set_option relaxedAutoImplicit false

namespace XmlRecords

/-! ### Entries of a directory -/

namespace FileStore

def Occupied (store : FileStore) (place : List String) : Prop :=
  (store.file? place).isSome = true ∨ store.isDirectory place = true

theorem append_singleton_prefix_iff {place path : List String} {name : String} :
    place ++ [name] <+: path ↔ place <+: path ∧ path[place.length]? = some name := by
  constructor
  · rintro ⟨rest, rfl⟩
    exact ⟨⟨name :: rest, by simp⟩, by simp⟩
  · rintro ⟨⟨rest, rfl⟩, here⟩
    rw [List.getElem?_append_right (Nat.le_refl _), Nat.sub_self] at here
    obtain ⟨rest, rfl⟩ := List.head?_eq_some_iff.mp (List.head?_eq_getElem? ▸ here)
    exact ⟨rest, by simp⟩

theorem occupied_iff {store : FileStore} {place : List String} (below : place ≠ []) :
    store.Occupied place ↔
      ∃ path ∈ store.files.map (·.1) ++ store.directories, place <+: path := by
  have notRoot : place.isEmpty = false := by simpa using below
  simp only [Occupied, file?, isDirectory, notRoot, Bool.false_or, Option.isSome_map,
    List.find?_isSome, beq_iff_eq, Bool.or_eq_true, List.any_eq_true, Bool.and_eq_true, bne_iff_ne,
    List.isPrefixOf_iff_prefix, List.mem_append, List.mem_map]
  constructor
  · rintro (⟨file, member, rfl⟩ | ⟨path, member, inside⟩ | ⟨file, member, inside, _⟩)
    · exact ⟨file.1, .inl ⟨file, member, rfl⟩, List.prefix_refl _⟩
    · exact ⟨path, .inr member, inside⟩
    · exact ⟨file.1, .inl ⟨file, member, rfl⟩, inside⟩
  · rintro ⟨_, ⟨file, member, rfl⟩ | member, inside⟩
    · by_cases same : file.1 = place
      · exact .inl ⟨file, member, same⟩
      · exact .inr (.inr ⟨file, member, inside, same⟩)
    · exact .inr (.inl ⟨_, member, inside⟩)

theorem mem_namesIn_iff {store : FileStore} {place : List String} {name : String} :
    name ∈ store.namesIn place ↔ store.Occupied (place ++ [name]) := by
  rw [occupied_iff (by simp), namesIn, List.mem_eraseDups]
  simp only [List.mem_filterMap, append_singleton_prefix_iff, Option.ite_none_right_eq_some,
    List.isPrefixOf_iff_prefix]

end FileStore

namespace Catalog

variable {store : FileStore} {directory name fileName : String}

/-! ### Stems -/

/-- The stem of a file name that ends in `.json` is what is before that, or all of it if nothing is. -/
inductive IsStem : (name fileName : String) → Prop
  | named {name : String} : name ≠ "" → IsStem name (name ++ ".json")
  | bare : IsStem ".json" ".json"

theorem endsWith_iff {s : String} {ending : String} :
    s.endsWith ending = true ↔ ∃ start : String, s = start ++ ending := by
  rw [String.endsWith_eq_endsWith_toSlice, String.Slice.endsWith_string_iff]
  constructor
  · rintro ⟨start, same⟩
    refine ⟨String.ofList start, String.toList_inj.mp ?_⟩
    simpa using same.symm
  · rintro ⟨start, rfl⟩
    exact ⟨start.toList, by simp⟩

theorem schemaName?_append (name : String) :
    schemaName? (name ++ ".json") = some (if name = "" then ".json" else name) := by
  have ends : (name ++ ".json").endsWith ".json" = true := endsWith_iff.mpr ⟨name, rfl⟩
  rw [schemaName?, if_pos ends]
  by_cases empty : name = ""
  · subst empty
    rfl
  · have five : ".json".length = 5 := rfl
    have longer : (name ++ ".json").length ≠ ".json".length := by
      rw [String.length_append]
      intro same
      exact empty (String.length_eq_zero_iff.mp (by omega))
    have start : ((name ++ ".json").dropEnd ".json".length).copy = name := by
      rw [← String.toList_inj, String.toList_copy_dropEnd, five]
      simp
    rw [if_neg longer, if_neg empty, String.Slice.toString_eq, start]

theorem schemaName?_eq_some_iff :
    schemaName? fileName = some name ↔ IsStem name fileName := by
  constructor
  · intro given
    by_cases ends : fileName.endsWith ".json" = true
    · obtain ⟨start, rfl⟩ := endsWith_iff.mp ends
      rw [schemaName?_append, Option.some.injEq] at given
      split at given
      · rename_i empty
        subst empty given
        exact .bare
      · rename_i nonempty
        subst given
        exact .named nonempty
    · rw [schemaName?, if_neg ends] at given
      cases given
  · rintro (nonempty | _)
    · rw [schemaName?_append, if_neg nonempty]
    · exact schemaName?_append ""

/-! ### The index of a directory -/

def Lies (store : FileStore) (directory fileName : String) : Prop :=
  ∃ place, store.locate (plainPath directory) = .ok place ∧ store.Occupied (place ++ [fileName])

/-- The file of a name in a directory is the last, in the order of file names, that has the name as its
stem. -/
structure FileFor (store : FileStore) (directory name fileName : String) : Prop where
  stem : IsStem name fileName
  lies : Lies store directory fileName
  last : ∀ other, IsStem name other → Lies store directory other → other ≤ fileName

theorem FileFor.unique {other : String}
    (one : FileFor store directory name fileName) (two : FileFor store directory name other) :
    fileName = other :=
  String.le_antisymm (two.last fileName one.stem one.lies) (one.last other two.stem two.lies)

theorem mem_names_lastOfEach {entries : List (String × String)} :
    name ∈ (lastOfEach entries).map (·.1) ↔ name ∈ entries.map (·.1) := by
  induction entries with
  | nil => rfl
  | cons entry entries ih =>
    rw [lastOfEach, List.map_cons, List.mem_cons]
    split
    · rename_i later
      rw [List.any_eq_true] at later
      obtain ⟨other, member, same⟩ := later
      have among : entry.1 ∈ entries.map (·.1) :=
        List.mem_map.mpr ⟨other, member, beq_iff_eq.mp same⟩
      rw [ih, or_iff_right_of_imp]
      rintro rfl
      exact among
    · rw [List.map_cons, List.mem_cons, ih]

theorem nodup_names_lastOfEach (entries : List (String × String)) :
    ((lastOfEach entries).map (·.1)).Nodup := by
  induction entries with
  | nil => exact List.nodup_nil
  | cons entry entries ih =>
    rw [lastOfEach]
    split
    · exact ih
    · rename_i fresh
      refine List.nodup_cons.mpr ⟨?_, ih⟩
      rw [mem_names_lastOfEach, List.mem_map]
      rintro ⟨other, member, same⟩
      exact fresh (List.any_eq_true.mpr ⟨other, member, beq_iff_eq.mpr same⟩)

theorem mem_of_mem_lastOfEach {entries : List (String × String)} {le : String → String → Prop}
    (refl : ∀ fileName, le fileName fileName) (ordered : entries.Pairwise fun a b => le a.2 b.2)
    (member : (name, fileName) ∈ lastOfEach entries) :
    (name, fileName) ∈ entries ∧ ∀ other, (name, other) ∈ entries → le other fileName := by
  induction entries with
  | nil => cases member
  | cons entry entries ih =>
    obtain ⟨first, ordered⟩ := List.pairwise_cons.mp ordered
    rw [lastOfEach] at member
    split at member
    · obtain ⟨inside, last⟩ := ih ordered member
      refine ⟨List.mem_cons_of_mem _ inside, fun other here => ?_⟩
      rcases List.mem_cons.mp here with rfl | below
      · exact first _ inside
      · exact last other below
    · rename_i fresh
      have apart (other : String) : (entry.1, other) ∉ entries := by
        intro below
        exact fresh (List.any_eq_true.mpr ⟨_, below, beq_self_eq_true _⟩)
      rcases List.mem_cons.mp member with rfl | member
      · refine ⟨List.mem_cons_self, fun other here => ?_⟩
        rcases List.mem_cons.mp here with same | below
        · rw [(Prod.mk.inj same).2]
          exact refl fileName
        · exact absurd below (apart other)
      · obtain ⟨inside, last⟩ := ih ordered member
        refine ⟨List.mem_cons_of_mem _ inside, fun other here => ?_⟩
        rcases List.mem_cons.mp here with rfl | below
        · exact absurd inside (apart fileName)
        · exact last other below

theorem mem_namedFiles_iff {fileNames : List String} :
    (name, fileName) ∈ namedFiles fileNames ↔ fileName ∈ fileNames ∧ IsStem name fileName := by
  simp only [namedFiles, List.mem_filterMap, Option.map_eq_some_iff, Prod.mk.injEq,
    ← schemaName?_eq_some_iff]
  constructor
  · rintro ⟨_, member, _, named, rfl, rfl⟩
    exact ⟨member, named⟩
  · rintro ⟨member, named⟩
    exact ⟨fileName, member, name, named, rfl, rfl⟩

theorem mem_namedFiles_of_located {place : List String}
    (located : store.locate (plainPath directory) = .ok place) :
    (name, fileName) ∈ namedFiles ((store.namesIn place).mergeSort fun a b => a ≤ b) ↔
      IsStem name fileName ∧ Lies store directory fileName := by
  rw [mem_namedFiles_iff, List.mem_mergeSort, FileStore.mem_namesIn_iff, and_comm]
  refine and_congr_right fun _ => ⟨fun here => ⟨place, located, here⟩, ?_⟩
  rintro ⟨other, located', here⟩
  obtain rfl := Except.ok.inj (located.symm.trans located')
  exact here

theorem pairwise_mergeSort_of {α : Type} (key : α → String) (xs : List α) :
    (xs.mergeSort fun a b => key a ≤ key b).Pairwise fun a b => key a ≤ key b := by
  have sorted := @List.pairwise_mergeSort α (fun a b => decide (key a ≤ key b))
    (fun a b c one two => by simpa using String.le_trans (by simpa using one) (by simpa using two))
    (fun a b => by simpa using String.le_total (key a) (key b)) xs
  exact sorted.imp fun le => of_decide_eq_true le

theorem pairwise_namedFiles (fileNames : List String) :
    (namedFiles (fileNames.mergeSort fun a b => a ≤ b)).Pairwise fun a b => a.2 ≤ b.2 := by
  refine List.Pairwise.filterMap _ ?_ (pairwise_mergeSort_of id fileNames)
  rintro fileName other le _ named _ named'
  obtain ⟨_, _, rfl⟩ := Option.map_eq_some_iff.mp named
  obtain ⟨_, _, rfl⟩ := Option.map_eq_some_iff.mp named'
  exact le

theorem names_mergeSort_pairwise {entries : List (String × String)}
    (distinct : (entries.map (·.1)).Nodup) :
    ((entries.mergeSort fun a b => a.1 ≤ b.1).map (·.1)).Pairwise (· < ·) := by
  have ordered : ((entries.mergeSort fun a b => a.1 ≤ b.1).map (·.1)).Pairwise (· ≤ ·) :=
    List.pairwise_map.mpr (pairwise_mergeSort_of (·.1) entries)
  have apart := ((List.mergeSort_perm entries fun a b => a.1 ≤ b.1).map (·.1)).nodup_iff.mpr distinct
  exact (ordered.and (List.nodup_iff_pairwise_ne.mp apart)).imp fun ⟨le, ne⟩ =>
    String.not_le.mp fun ge => ne (String.le_antisymm le ge)

def schemaNames (store : FileStore) (directory : String) : List String :=
  (filesIn store directory).map (·.1)

theorem schemaNames_pairwise (store : FileStore) (directory : String) :
    (schemaNames store directory).Pairwise (· < ·) := by
  unfold schemaNames filesIn
  split
  · exact List.Pairwise.nil
  · exact names_mergeSort_pairwise (nodup_names_lastOfEach _)

theorem mem_schemaNames_iff :
    name ∈ schemaNames store directory ↔
      ∃ fileName, IsStem name fileName ∧ Lies store directory fileName := by
  unfold schemaNames filesIn
  split
  · rename_i located
    refine iff_of_false List.not_mem_nil ?_
    rintro ⟨_, _, place, located', _⟩
    cases located.symm.trans located'
  · rename_i place located
    dsimp only
    rw [((List.mergeSort_perm _ _).map _).mem_iff, mem_names_lastOfEach, List.mem_map]
    constructor
    · rintro ⟨⟨_, fileName⟩, member, rfl⟩
      exact ⟨fileName, (mem_namedFiles_of_located located).mp member⟩
    · rintro ⟨fileName, here⟩
      exact ⟨_, (mem_namedFiles_of_located located).mpr here, rfl⟩

theorem fileFor_of_mem_filesIn (member : (name, fileName) ∈ filesIn store directory) :
    FileFor store directory name fileName := by
  unfold filesIn at member
  split at member
  · cases member
  · rename_i place located
    rw [List.mem_mergeSort] at member
    obtain ⟨inside, last⟩ := mem_of_mem_lastOfEach String.le_refl (pairwise_namedFiles _) member
    obtain ⟨stem, lies⟩ := (mem_namedFiles_of_located located).mp inside
    exact ⟨stem, lies, fun other stem' lies' =>
      last other ((mem_namedFiles_of_located located).mpr ⟨stem', lies'⟩)⟩

theorem mem_filesIn_iff :
    (name, fileName) ∈ filesIn store directory ↔ FileFor store directory name fileName := by
  refine ⟨fileFor_of_mem_filesIn, fun given => ?_⟩
  have named := mem_schemaNames_iff.mpr ⟨fileName, given.stem, given.lies⟩
  obtain ⟨⟨_, other⟩, member, rfl⟩ := List.mem_map.mp named
  rw [given.unique (fileFor_of_mem_filesIn member)]
  exact member

theorem mem_indexOf_iff {path : String} : (name, path) ∈ indexOf store directory ↔
    ∃ fileName, FileFor store directory name fileName ∧ path = joinPath directory fileName := by
  simp only [indexOf, List.mem_map, ← mem_filesIn_iff]
  constructor
  · rintro ⟨⟨name, fileName⟩, member, same⟩
    obtain ⟨rfl, rfl⟩ := Prod.mk.inj same
    exact ⟨fileName, member, rfl⟩
  · rintro ⟨fileName, member, rfl⟩
    exact ⟨_, member, rfl⟩

theorem names_indexOf (store : FileStore) (directory : String) :
    (indexOf store directory).map (·.1) = schemaNames store directory := by
  rw [indexOf, List.map_map]
  rfl

end Catalog

end XmlRecords
