import XmlRecords.CommandLine

/-!
The program. It fetches the files that its arguments name and those that these may refer to, runs
the command line on them, and then makes the directories and writes the files that the run added.
-/

set_option autoImplicit false
set_option relaxedAutoImplicit false

namespace XmlRecords

def absolutePath (place : List String) : String := "/" ++ "/".intercalate place

/-- The places that a document at a path may refer to: whatever its quoted texts may mean. -/
def mentionedPlaces (path : String) (content : List UInt8) : List String :=
  match Xml.decodeDocument? content with
  | some cs =>
    let texts := (cs.splitOnP fun c => c == '"' || c == '\'').map String.ofList
    (texts.filter fun text => text.length < 256 && !text.contains '<').map
      (Xml.Location.resolve (some path))
  | none => []

/-- Fetches the file at a path and those it may refer to, unless that was done. -/
partial def fetch (store : FileStore) (path : String) : IO FileStore := do
  if (store.file? (store.placeOf path)).isSome then return store
  try
    let content := (← IO.FS.readBinFile path).toList
    (mentionedPlaces path content).foldlM fetch (store.put (store.placeOf path) content)
  catch
    | .inappropriateType .. =>
      return { store with directories := store.directories ++ [store.placeOf path] }
    | _ => return store

/-- Makes the directories and writes the files that a tree has and another had not. -/
def writeChanges (before after : FileStore) : IO Unit := do
  for place in after.directories do
    if !before.directories.contains place then IO.FS.createDirAll (absolutePath place)
  for (place, content) in after.files do
    if before.file? place != some content then
      IO.FS.writeBinFile (absolutePath place) ⟨content.toArray⟩

def runProgram (arguments : List String) : IO UInt32 := do
  let home := FileStore.segmentsOf (toString (← IO.currentDir))
  let store ← arguments.foldlM fetch (FileStore.empty home)
  let (code, run) := runCommandLine store arguments
  writeChanges store run.store
  IO.print run.out
  if run.verbose then
    for notice in run.notices do
      IO.eprintln s!"{notice.level} {notice.text}"
  IO.eprint run.err
  return code.toUInt32

end XmlRecords

def main (arguments : List String) : IO UInt32 := XmlRecords.runProgram arguments
