import XmlRecords.CommandLine.Arguments
import XmlRecords.CommandLine.Markup
import XmlRecords.CommandLine.Table
import XmlRecords.Intake
import XmlRecords.ModuleSource.Generation
import XmlRecords.Schema.Catalog

/-!
The command line: it lists the bundled schemas, generates modules for a schema, and reads and checks
documents. A run changes a tree of files and gives texts and an exit code; a wrong command line and
a schema that cannot be used exit with 2, a document that cannot be read and all else with 1.
-/

set_option autoImplicit false
set_option relaxedAutoImplicit false

namespace XmlRecords

structure Run where
  store : FileStore
  out : String := ""
  err : String := ""
  notices : List Notice := []
  /-- Tells that the notices are to be shown. -/
  verbose : Bool := false

/-- Steps of a run; a step may end it with an exit code. -/
abbrev Action := ExceptT Nat (StateM Run)

inductive Command where
  | schemas
  | generate
  | dump
  | check
  deriving DecidableEq, Repr

namespace Command

def all : List Command := [.schemas, .generate, .dump, .check]

def name : Command → String
  | .schemas => "schemas"
  | .generate => "generate"
  | .dump => "dump"
  | .check => "check"

def summary : Command → String
  | .schemas => "List the bundled schemas."
  | .generate => "Generate binding modules for SCHEMA."
  | .dump => "Read DOCUMENT and print its canonical form."
  | .check => "Report whether each DOCUMENT binds to SCHEMA."

def helpOption : OptionSpec := ⟨"--help", none, false⟩

def verboseOption : OptionSpec := ⟨"--verbose", some 'v', false⟩

def outputOption : OptionSpec := ⟨"--output", some 'o', true⟩

def packageOption : OptionSpec := ⟨"--package", some 'p', true⟩

def options : Command → List OptionSpec
  | .generate => [outputOption, packageOption, helpOption]
  | _ => [helpOption]

/-- The words of a command line of the command, after the name of the program. -/
def synopsis : Command → List String
  | .schemas => ["schemas", "[OPTIONS]"]
  | .generate => ["generate", "[OPTIONS]", "SCHEMA"]
  | .dump => ["dump", "[OPTIONS]", "SCHEMA", "DOCUMENT"]
  | .check => ["check", "[OPTIONS]", "SCHEMA", "DOCUMENTS..."]

end Command

namespace Action

def printOut (text : String) : Action Unit := modify fun run => { run with out := run.out ++ text }

def printErr (text : String) : Action Unit := modify fun run => { run with err := run.err ++ text }

def lineOf (message : String) : Action String :=
  match Markup.shown? message with
  | some shown => return shown ++ "\n"
  | none => throw 1

def say (message : String) : Action Unit := do printOut (← lineOf message)

def complain (message : String) : Action Unit := do
  printErr (← lineOf ("[red]Error:[/red] " ++ message))

def note (notices : List Notice) : Action Unit :=
  modify fun run => { run with notices := run.notices ++ notices }

def files : Action FileStore := return (← get).store

def refuse {α : Type} (command : Option Command) (fault : UsageFault) : Action α := do
  if fault.showsUsage then
    let (start, rest) :=
      match command with
      | some c => ("main " ++ c.name, "main " ++ " ".intercalate c.synopsis)
      | none => ("main", "main [OPTIONS] COMMAND [ARGS]...")
    printErr s!"Usage: {rest}\nTry '{start} --help' for help.\n\n"
  printErr s!"Error: {fault.message}\n"
  throw 2

def explain (print : String → Action Unit) : Option Command → Action Unit
  | some c => do
    print ("Usage: main " ++ " ".intercalate c.synopsis ++ "\n\n")
    print s!"  {c.summary}\n"
  | none => do
    print "Usage: main [OPTIONS] COMMAND [ARGS]...\n\nCommands:\n"
    for c in Command.all do
      print s!"  {c.name}  {c.summary}\n"

def stopForSchema {α : Type} : Fault → Action α
  | .problem p => do
    complain p.message
    throw 2
  | _ => throw 1

def schemaOf (reference : String) : Action Schema := do
  match Schema.resolve (← files) reference with
  | .ok s => return s
  | .error fault => stopForSchema fault

def bindingOf (reference : String) : Action BoundSchema := do
  match BoundSchema.bind (← schemaOf reference) with
  | .ok b =>
    note [b.notice]
    return b
  | .error fault => stopForSchema fault

def unsuitable? : Fault → Option String
  | .codec fault => if fault.isUnsuitable then some fault.message else none
  | _ => none

/-- The record of the document in a file, none without a right root, or what is wrong with it. -/
def recordOf (b : BoundSchema) (path : String) : Action (Except String (Option Value)) := do
  match b.read .standard (← files) (plainPath path) with
  | .ok intake =>
    note intake.notices
    return .ok intake.record
  | .error fault =>
    match unsuitable? fault with
    | some message => return .error message
    | none => throw 1

def listSchemas : Action Unit := do
  let rows := (Schema.bundled.map (·.1)).filterMap fun name =>
    (Schema.loadBundled name).toOption.map fun s => (name, s)
  printOut <| table "Bundled schemas" [
    ⟨"Name", false, rows.map (·.1)⟩,
    ⟨"Root element", false, rows.map fun (_, s) => s.rootElement.shown⟩,
    ⟨"Records", true, rows.map fun (_, s) => toString s.declared.length⟩,
    ⟨"Enums", true, rows.map fun (_, s) => toString s.enumerations.length⟩]

def generate (reference directory : String) (package : Option String) : Action Unit := do
  let s ← schemaOf reference
  let written := ModuleSource.write s (← files) directory package
  modify fun run => { run with store := written.store }
  note written.notices
  match written.paths with
  | .ok paths => paths.forM fun path => say s!"[green]Wrote[/green] {path}"
  | .error fault => stopForSchema fault

def dump (reference document : String) : Action Unit := do
  let b ← bindingOf reference
  match ← recordOf b document with
  | .error message =>
    complain s!"{plainPath document}: {message}"
    throw 1
  | .ok none =>
    complain s!"{plainPath document} is not a <{b.schema.rootElement.shown}> document"
    throw 1
  | .ok (some record) =>
    match b.write record with
    | .ok text => printOut text
    | .error _ => throw 1

def checkOne (b : BoundSchema) (document : String) : Action Bool := do
  let path := plainPath document
  match ← recordOf b document with
  | .ok (some _) =>
    say s!"[green]✓[/green] {path}"
    return true
  | .ok none =>
    say s!"[red]✗[/red] {path}: not a <{b.schema.rootElement.shown}> document"
    return false
  | .error message =>
    say s!"[red]✗[/red] {path}: {message}"
    return false

def check (reference : String) (documents : List String) : Action Unit := do
  let b ← bindingOf reference
  let results ← documents.mapM (checkOne b)
  let failed := results.count false
  if failed ≠ 0 then
    say s!"\n[red]{failed} of {documents.length} documents failed[/red]"
    throw 1

/-- The argument of a name, refused if it is not there. -/
def required (command : Command) (name : String) : Option String → Action String
  | some argument => return argument
  | none => refuse command (.argumentMissing name)

def checkDocument (command : Command) (name path : String) : Action Unit := do
  let store ← files
  match store.locate path with
  | .ok place =>
    if store.isDirectory place then refuse command (.notFile s!"'{name}'" path)
  | .error _ => return

def checkDirectory (command : Command) (name path : String) : Action Unit := do
  let store ← files
  match store.locate path with
  | .ok place =>
    if (store.file? place).isSome then refuse command (.notDirectory name path)
  | .error _ => return

def checkNoMore (command : Command) (rest : List String) : Action Unit :=
  if rest.isEmpty then return else refuse command (.extraArguments rest)

def runCommand (command : Command) (arguments : Arguments) : Action Unit := do
  let others := arguments.others
  match command with
  | .schemas =>
    checkNoMore command others
    listSchemas
  | .generate =>
    let name := "'--output' / '-o'"
    let output := arguments.value? "--output"
    output.forM (checkDirectory command name)
    let reference ← required command "SCHEMA" others[0]?
    let some directory := output | refuse command (.optionMissing name)
    checkNoMore command (others.drop 1)
    generate reference directory (arguments.value? "--package")
  | .dump =>
    let reference ← required command "SCHEMA" others[0]?
    let document ← required command "DOCUMENT" others[1]?
    checkDocument command "DOCUMENT" document
    checkNoMore command (others.drop 2)
    dump reference document
  | .check =>
    let reference ← required command "SCHEMA" others[0]?
    let _ ← required command "DOCUMENTS..." others[1]?
    (others.drop 1).forM (checkDocument command "DOCUMENTS...")
    check reference (others.drop 1)

def readArguments (command : Option Command) (specs : List OptionSpec) (mixed : Bool)
    (arguments : List String) : Action Arguments :=
  match Arguments.read specs mixed ⟨[], []⟩ arguments with
  | .ok arguments => return arguments
  | .error fault => refuse command fault

def runAll (arguments : List String) : Action Unit := do
  if arguments.isEmpty then
    explain printErr none
    throw 2
  let first ← readArguments none [Command.verboseOption, Command.helpOption] false arguments
  modify fun run => { run with verbose := first.has "--verbose" }
  if first.has "--help" then explain printOut none
  else
    match first.others with
    | [] => refuse none .commandMissing
    | name :: rest =>
      match Command.all.find? (·.name == name) with
      | none => refuse none (.noSuchCommand name (similarNames name (Command.all.map Command.name)))
      | some command =>
        let arguments ← readArguments command command.options true rest
        if arguments.has "--help" then explain printOut command
        else runCommand command arguments

end Action

/-- Runs a command line on a tree of files and gives the exit code and what was done. -/
def runCommandLine (store : FileStore) (arguments : List String) : Nat × Run :=
  match (Action.runAll arguments).run.run { store } with
  | (.ok (), run) => (0, run)
  | (.error code, run) => (code, run)

end XmlRecords
