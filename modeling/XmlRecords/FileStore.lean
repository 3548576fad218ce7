import XmlRecords.Text.Quoted

/-!
A tree of files as paths with contents. A path is walked segment by segment, so that each directory
on the way has to exist.
-/

set_option autoImplicit false
set_option relaxedAutoImplicit false

namespace XmlRecords

/-- Why a path leads to no file, or to none that can be made. -/
inductive FileFault where
  | notFound
  | taken
  | notDirectory
  | isDirectory
  deriving DecidableEq, Repr

/-- The fault with its number and the path, as systems report it. -/
def FileFault.message (fault : FileFault) (path : String) : String :=
  let reason :=
    match fault with
    | .notFound => "[Errno 2] No such file or directory: "
    | .taken => "[Errno 17] File exists: "
    | .isDirectory => "[Errno 21] Is a directory: "
    | .notDirectory => "[Errno 20] Not a directory: "
  reason ++ Text.quoted path

/-- Files and directories under their places, the segments that lead to them from the root. Relative
paths start at the home directory. -/
structure FileStore where
  home : List String
  files : List (List String × List UInt8)
  directories : List (List String)

namespace FileStore

def empty (home : List String) : FileStore := ⟨home, [], [home]⟩

def file? (store : FileStore) (place : List String) : Option (List UInt8) :=
  (store.files.find? (·.1 == place)).map (·.2)

def isDirectory (store : FileStore) (place : List String) : Bool :=
  place.isEmpty || store.directories.any place.isPrefixOf ||
    store.files.any fun (path, _) => place.isPrefixOf path && path != place

/-- The place that segments lead to from a directory. The root is its own parent. -/
def walk (store : FileStore) (place : List String) :
    List String → Except FileFault (List String)
  | [] => .ok place
  | segment :: rest =>
    if !store.isDirectory place then
      .error (if (store.file? place).isSome then .notDirectory else .notFound)
    else if segment = "" ∨ segment = "." then walk store place rest
    else if segment = ".." then walk store place.dropLast rest
    else walk store (place ++ [segment]) rest

def start (store : FileStore) (path : String) : List String :=
  if path.startsWith "/" then [] else store.home

def locate (store : FileStore) (path : String) : Except FileFault (List String) :=
  if path.isEmpty then .error .notFound
  else store.walk (store.start path) (path.splitOn "/")

def read (store : FileStore) (path : String) : Except FileFault (List UInt8) := do
  let place ← store.locate path
  match store.file? place with
  | some content => return content
  | none => throw (if store.isDirectory place then .isDirectory else .notFound)

def segmentsOf (path : String) : List String :=
  (path.splitOn "/").filter fun segment => segment != "" && segment != "."

def placeOf (store : FileStore) (path : String) : List String :=
  store.start path ++ segmentsOf path

def put (store : FileStore) (place : List String) (content : List UInt8) : FileStore :=
  { store with
    files := store.files.filter (·.1 != place) ++ [(place, content)]
    directories := store.directories ++ [place.dropLast] }

/-- Takes the file at a place away; its directory stays. -/
def remove (store : FileStore) (place : List String) : FileStore :=
  { store with
    files := store.files.filter (·.1 != place)
    directories := store.directories ++ [place.dropLast] }

def write (store : FileStore) (path : String) (content : List UInt8) :
    Except FileFault FileStore := do
  let place ← store.locate path
  if store.isDirectory place then throw .isDirectory
  return store.put place content

/-- Makes the directories that segments lead through from a place, as far as they are missing. -/
def makeDirectories (store : FileStore) (place : List String) :
    List String → Except FileFault FileStore
  | [] => .ok { store with directories := store.directories ++ [place] }
  | ".." :: rest => makeDirectories store place.dropLast rest
  | segment :: rest =>
    let next := place ++ [segment]
    if (store.file? next).isSome then .error (if rest.isEmpty then .taken else .notDirectory)
    else makeDirectories { store with directories := store.directories ++ [next] } next rest

def makeDirectory (store : FileStore) (path : String) : Except FileFault FileStore :=
  store.makeDirectories (store.start path) (segmentsOf path)

def namesIn (store : FileStore) (place : List String) : List String :=
  ((store.files.map (·.1) ++ store.directories).filterMap fun path =>
    if place.isPrefixOf path then path[place.length]? else none).eraseDups

def below (store : FileStore) (place : List String) : List (String × List UInt8) :=
  store.files.filterMap fun (path, content) =>
    if place.isPrefixOf path && path != place then
      some ("/".intercalate (path.drop place.length), content)
    else none

end FileStore

/-- The slashes that a path starts with in its plain form: two are kept, more are one. -/
def leadingSlashes (path : String) : String :=
  if path.startsWith "//" && !path.startsWith "///" then "//"
  else if path.startsWith "/" then "/"
  else ""

/-- A path in its plain form: without empty and dot segments, `.` if nothing is left. -/
def plainPath (path : String) : String :=
  let plain := leadingSlashes path ++ "/".intercalate (FileStore.segmentsOf path)
  if plain.isEmpty then "." else plain

def joinPath (directory name : String) : String :=
  match plainPath directory with
  | "." => name
  | "/" => "/" ++ name
  | "//" => "//" ++ name
  | directory => directory ++ "/" ++ name

end XmlRecords
