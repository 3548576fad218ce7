import XmlRecords.Proofs.CatalogIndex
import XmlRecords.Proofs.LoadingFaults

/-!
Catalogs in use. Between two calls anything may happen to the files. The names of a catalog are those
of the schema files that were in its directory when it was first used; a schema that was given once is
given ever after, and one that was not is read from its file as it is now.
-/

set_option autoImplicit false
set_option relaxedAutoImplicit false

namespace XmlRecords

namespace Catalog

/-! ### Calls -/

inductive Call where
  | load
  | list
  | contains (name : String)
  | get (name : String)

inductive Answer where
  | done
  | names (names : List String)
  | found (isFound : Bool)
  | schema (result : Except Fault Schema)

/-- The answer to a call, given the files at the time, and the catalog after it. -/
def answer (c : Catalog) (store : FileStore) : Call → Answer × Catalog
  | .load => (.done, c.indexed store)
  | .list => (.names (c.names store), c.indexed store)
  | .contains name => (.found (c.contains store name), c.indexed store)
  | .get name => (.schema (c.get store name).1, (c.get store name).2)

def after (c : Catalog) (calls : List (FileStore × Call)) : Catalog :=
  calls.foldl (fun c (store, call) => (c.answer store call).2) c

def answers (c : Catalog) : List (FileStore × Call) → List (Call × Answer)
  | [] => []
  | (store, call) :: calls =>
    (call, (c.answer store call).1) :: (c.answer store call).2.answers calls

/-! ### One call -/

variable {c : Catalog} {store : FileStore} {name : String} {schema : Schema}

theorem currentIndex_indexed (now : FileStore) :
    (c.indexed store).currentIndex now = c.currentIndex store := by
  simp [indexed, currentIndex]

/-- What asking for a schema gives, and the catalog after it. -/
inductive Gets (c : Catalog) (store : FileStore) (name : String) :
    Except Fault Schema × Catalog → Prop
  | kept {schema : Schema} : c.kept? name = some schema →
      Gets c store name (.ok schema, c.indexed store)
  | unknown : c.kept? name = none → name ∉ c.names store →
      Gets c store name (.error (.noSuchSchema name), c.indexed store)
  | read {path : String} {schema : Schema} : c.kept? name = none →
      (name, path) ∈ c.currentIndex store → c.load store path = .ok schema →
      Gets c store name (.ok schema, { c.indexed store with kept := (name, schema) :: c.kept })
  | failed {path : String} {fault : Fault} : c.kept? name = none →
      (name, path) ∈ c.currentIndex store → c.load store path = .error fault →
      Gets c store name (.error fault, c.indexed store)

theorem gets_get (c : Catalog) (store : FileStore) (name : String) :
    Gets c store name (c.get store name) := by
  have sameKept : (c.indexed store).kept? name = c.kept? name := rfl
  have sameLoad (path : String) : (c.indexed store).load store path = c.load store path := rfl
  simp only [get, sameKept, currentIndex_indexed, sameLoad]
  split
  · exact .kept ‹_›
  · rename_i notKept
    split
    · rename_i absent
      refine .unknown notKept fun known => ?_
      obtain ⟨entry, member, isName⟩ := List.mem_map.mp known
      exact List.find?_eq_none.mp absent entry member (beq_iff_eq.mpr isName)
    · rename_i entry path found
      have isName := List.find?_some found
      obtain rfl : entry = name := beq_iff_eq.mp isName
      have known := List.mem_of_find?_eq_some found
      split
      · exact .failed notKept known ‹_›
      · exact .read notKept known ‹_›

theorem get_of_kept (isKept : c.kept? name = some schema) : (c.get store name).1 = .ok schema := by
  have gets := gets_get c store name
  generalize c.get store name = result at gets ⊢
  cases gets with
  | kept isKept' => rw [Option.some.inj (isKept.symm.trans isKept')]
  | unknown notKept | read notKept | failed notKept => cases isKept.symm.trans notKept

theorem get_of_file {directory fileName : String} {first : FileStore}
    (source : c.source = .directory directory)
    (index : c.currentIndex store = indexOf first directory) (notKept : c.kept? name = none)
    (file : FileFor first directory name fileName) :
    (c.get store name).1 = Schema.loadFile store (joinPath directory fileName) := by
  have path_eq {path : String} (known : (name, path) ∈ c.currentIndex store) :
      path = joinPath directory fileName := by
    rw [index] at known
    obtain ⟨other, file', rfl⟩ := mem_indexOf_iff.mp known
    rw [file.unique file']
  have gets := gets_get c store name
  generalize c.get store name = result at gets ⊢
  cases gets with
  | kept isKept => cases notKept.symm.trans isKept
  | unknown _ absent =>
    refine absurd ?_ absent
    rw [names, index, List.mem_map]
    exact ⟨_, mem_indexOf_iff.mpr ⟨fileName, file, rfl⟩, rfl⟩
  | read _ known given | failed _ known given =>
    rw [load, source, path_eq known] at given
    exact given.symm

theorem get_of_failed {fault : Fault} (failed : (c.get store name).1 = .error fault) :
    (c.get store name).2 = c.indexed store := by
  have gets := gets_get c store name
  generalize c.get store name = result at gets failed ⊢
  cases gets with
  | kept | read => cases failed
  | unknown | failed => rfl

theorem kept?_cons (c : Catalog) (store : FileStore) (name other : String) (schema : Schema) :
    ({ c.indexed store with kept := (name, schema) :: c.kept }).kept? other =
      if name = other then some schema else c.kept? other := by
  simp only [kept?, List.find?_cons]
  by_cases same : name = other
  · simp [same]
  · rw [if_neg same, beq_false_of_ne same]

theorem exists_kept_of_answer (c : Catalog) (store : FileStore) (call : Call) :
    ∃ kept, (c.answer store call).2 = { c.indexed store with kept } := by
  cases call with
  | load | list | contains => exact ⟨c.kept, rfl⟩
  | get name =>
    have gets := gets_get c store name
    rw [answer]
    generalize c.get store name = result at gets ⊢
    cases gets <;> exact ⟨_, rfl⟩

theorem currentIndex_answer (call : Call) (now : FileStore) :
    (c.answer store call).2.currentIndex now = c.currentIndex store := by
  obtain ⟨kept, same⟩ := exists_kept_of_answer c store call
  rw [same]
  exact currentIndex_indexed now

theorem indexed_answer (call : Call) (now : FileStore) :
    (c.answer store call).2.indexed now = (c.answer store call).2 := by
  obtain ⟨kept, same⟩ := exists_kept_of_answer c store call
  rw [indexed, currentIndex_answer, same, indexed]

theorem source_answer (call : Call) : (c.answer store call).2.source = c.source := by
  obtain ⟨kept, same⟩ := exists_kept_of_answer c store call
  rw [same, indexed]

/-- A call keeps the schema that it gives, and those that were kept before. -/
theorem kept?_answer_iff (call : Call) :
    (c.answer store call).2.kept? name = some schema ↔ c.kept? name = some schema ∨
      (.get name, .schema (.ok schema)) = (call, (c.answer store call).1) := by
  have sameKept : (c.indexed store).kept? name = c.kept? name := rfl
  cases call with
  | load | list | contains =>
    rw [answer, sameKept, or_iff_left]
    nofun
  | get asked =>
    have gets := gets_get c store asked
    rw [answer]
    generalize c.get store asked = result at gets ⊢
    cases gets with
    | kept isKept =>
      rw [sameKept, or_iff_left_of_imp]
      rintro ⟨⟩
      exact isKept
    | unknown | failed =>
      rw [sameKept, or_iff_left]
      nofun
    | read notKept =>
      rw [kept?_cons]
      split
      · rename_i same
        subst same
        simp [notKept, eq_comm]
      · rename_i other
        rw [or_iff_left]
        rintro ⟨⟩
        exact other rfl

def KeepsNamed (c : Catalog) : Prop :=
  ∀ name schema, c.kept? name = some schema → ∀ store, name ∈ c.names store

theorem keepsNamed_new (source : CatalogSource) : (new source).KeepsNamed := by
  intro name schema isKept
  cases isKept

theorem KeepsNamed.mem_names (keeps : c.KeepsNamed)
    (given : (c.get store name).1 = .ok schema) : name ∈ c.names store := by
  have gets := gets_get c store name
  generalize c.get store name = result at gets given
  cases gets with
  | kept isKept => exact keeps name _ isKept store
  | unknown | failed => cases given
  | read _ known => exact List.mem_map_of_mem known

theorem KeepsNamed.answer (keeps : c.KeepsNamed) (call : Call) :
    (c.answer store call).2.KeepsNamed := by
  intro name schema isKept now
  rw [names, currentIndex_answer]
  rcases kept?_answer_iff call |>.mp isKept with before | given
  · exact keeps name schema before store
  · obtain ⟨rfl, given⟩ := Prod.mk.inj given
    exact keeps.mem_names (Answer.schema.inj given).symm

theorem loadFile_ne_noSuchSchema (path : String) :
    Schema.loadFile store path ≠ .error (.noSuchSchema name) := by
  intro failed
  rcases Schema.fault_of_loadFile failed with ⟨_, same⟩ | ⟨_, _, escapes⟩
  · cases same
  · cases escapes

theorem get_eq_noSuchSchema_iff {directory : String} (source : c.source = .directory directory)
    (keeps : c.KeepsNamed) :
    (c.get store name).1 = .error (.noSuchSchema name) ↔ name ∉ c.names store := by
  have gets := gets_get c store name
  generalize c.get store name = result at gets ⊢
  cases gets with
  | kept isKept => exact iff_of_false nofun fun absent => absent (keeps _ _ isKept store)
  | unknown _ absent => exact iff_of_true rfl absent
  | read _ known => exact iff_of_false nofun fun absent => absent (List.mem_map_of_mem known)
  | @failed path _ _ known failed =>
    refine iff_of_false ?_ fun absent => absent (List.mem_map_of_mem known)
    rintro ⟨⟩
    rw [load, source] at failed
    exact loadFile_ne_noSuchSchema path failed

/-! ### Runs -/

variable {past : List (FileStore × Call)}

/-- The files at the first of some calls, or as they are now if there was none. -/
def filesAtFirstUse (past : List (FileStore × Call)) (now : FileStore) : FileStore :=
  match past with
  | [] => now
  | (store, _) :: _ => store

theorem currentIndex_after (c : Catalog) (past : List (FileStore × Call)) (now : FileStore) :
    (c.after past).currentIndex now = c.currentIndex (filesAtFirstUse past now) := by
  induction past generalizing c with
  | nil => rfl
  | cons step past ih =>
    obtain ⟨store, call⟩ := step
    exact (ih _).trans (currentIndex_answer call _)

theorem source_after (c : Catalog) (past : List (FileStore × Call)) :
    (c.after past).source = c.source := by
  induction past generalizing c with
  | nil => rfl
  | cons step past ih => exact (ih _).trans (source_answer step.2)

theorem KeepsNamed.after (keeps : c.KeepsNamed) (past : List (FileStore × Call)) :
    (c.after past).KeepsNamed := by
  induction past generalizing c with
  | nil => exact keeps
  | cons step past ih => exact ih (keeps.answer step.2)

theorem kept?_after_iff : (c.after past).kept? name = some schema ↔
    c.kept? name = some schema ∨ (.get name, .schema (.ok schema)) ∈ c.answers past := by
  induction past generalizing c with
  | nil => simp [after, answers]
  | cons step past ih =>
    obtain ⟨store, call⟩ := step
    rw [answers, List.mem_cons, ← or_assoc, ← kept?_answer_iff, ← ih]
    rfl

theorem indexed_after (used : past ≠ []) (now : FileStore) :
    (c.after past).indexed now = c.after past := by
  induction past generalizing c with
  | nil => exact absurd rfl used
  | cons step past ih =>
    by_cases last : past = []
    · subst last
      exact indexed_answer step.2 now
    · exact ih last

/-- How a catalog of a directory answers its next call: `answered` holds the calls before and their
answers, `first` the files when it was first used. -/
structure Coherent (directory : String) (first now : FileStore) (answered : List (Call × Answer))
    (c : Catalog) : Prop where
  /-- The names are the stems of the schema files at the first use. -/
  stems : ∀ name, name ∈ schemaNames first directory ↔
    ∃ fileName, IsStem name fileName ∧ Lies first directory fileName
  ordered : (schemaNames first directory).Pairwise (· < ·)
  list : (c.answer now .list).1 = .names (schemaNames first directory)
  contains : ∀ name,
    (c.answer now (.contains name)).1 = .found (decide (name ∈ schemaNames first directory))
  unknown : ∀ name, (c.answer now (.get name)).1 = .schema (.error (.noSuchSchema name)) ↔
    name ∉ schemaNames first directory
  /-- A schema that was given is given again. -/
  given : ∀ name schema, (.get name, .schema (.ok schema)) ∈ answered →
    (c.answer now (.get name)).1 = .schema (.ok schema)
  /-- One that was not given is read from its file as it is now. -/
  read : ∀ name fileName, FileFor first directory name fileName →
    (∀ schema, (.get name, .schema (.ok schema)) ∉ answered) →
      (c.answer now (.get name)).1 = .schema (Schema.loadFile now (joinPath directory fileName))
  /-- A failure leaves the catalog as a mere use does, -/
  failed : ∀ name fault, (c.answer now (.get name)).1 = .schema (.error fault) →
    (c.answer now (.get name)).2 = (c.answer now .load).2
  /-- and that changes nothing in a catalog that was used before. -/
  used : answered ≠ [] → (c.answer now .load).2 = c

/-- Whatever was called before and whatever became of the files in between, a catalog of a directory
answers coherently. -/
theorem coherent_after (directory : String) (past : List (FileStore × Call)) (now : FileStore) :
    Coherent directory (filesAtFirstUse past now) now ((new (.directory directory)).answers past)
      ((new (.directory directory)).after past) := by
  have source := source_after (new (.directory directory)) past
  have index : ((new (.directory directory)).after past).currentIndex now =
      indexOf (filesAtFirstUse past now) directory := currentIndex_after _ past now
  have keeps := (keepsNamed_new (.directory directory)).after past
  have kept_iff (name : String) (schema : Schema) :
      ((new (.directory directory)).after past).kept? name = some schema ↔
        (.get name, .schema (.ok schema)) ∈ (new (.directory directory)).answers past :=
    kept?_after_iff.trans (or_iff_right nofun)
  have settled (used : past ≠ []) := @indexed_after (new (.directory directory)) past used now
  have answered : (new (.directory directory)).answers past = [] ↔ past = [] := by
    cases past <;> simp [answers]
  generalize (new (.directory directory)).after past = c at *
  generalize filesAtFirstUse past now = first at *
  have names : c.names now = schemaNames first directory := by
    rw [Catalog.names, index, names_indexOf]
  refine ⟨fun name => mem_schemaNames_iff, schemaNames_pairwise first directory, ?list,
    fun name => ?contains, fun name => ?unknown, fun name schema isGiven => ?given,
    fun name fileName file notGiven => ?read, fun name fault failed => ?failed, fun used => ?used⟩
  case list => rw [answer, names]
  case contains => rw [answer, Catalog.contains, names, List.contains_eq_mem]
  case unknown =>
    rw [answer, Answer.schema.injEq, ← names]
    exact get_eq_noSuchSchema_iff source keeps
  case given => rw [answer, get_of_kept ((kept_iff name schema).mpr isGiven)]
  case read =>
    have notKept : c.kept? name = none :=
      Option.eq_none_iff_forall_not_mem.mpr fun schema isKept =>
        notGiven schema ((kept_iff name schema).mp isKept)
    rw [answer, get_of_file source index notKept file]
  case failed => exact get_of_failed (Answer.schema.inj failed)
  case used => exact settled (answered.not.mp used)

end Catalog

end XmlRecords
