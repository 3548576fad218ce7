import XmlRecords.Text.Quoted

/-!
Arguments of a command line. An argument that starts with a dash gives options: one by its long
name, or several by their letters. The rest are kept in order, and `--` ends the options.
-/

set_option autoImplicit false
set_option relaxedAutoImplicit false

namespace XmlRecords

/-- An option under its names; the long one starts with two dashes. -/
structure OptionSpec where
  long : String
  letter : Option Char
  takesValue : Bool
  deriving DecidableEq, Repr

inductive UsageFault where
  | noSuchOption (name : String) (similar : List String)
  | valueMissing (option : String)
  | valueUnexpected (option : String)
  | argumentMissing (name : String)
  | optionMissing (name : String)
  | notFile (name path : String)
  | notDirectory (name path : String)
  | extraArguments (arguments : List String)
  | commandMissing
  | noSuchCommand (name : String) (similar : List String)
  deriving DecidableEq, Repr

namespace UsageFault

def offer (kind : String) : List String → String
  | [] => ""
  | [name] => s!" Did you mean {Text.quoted name}?"
  | names => s!" (Possible {kind}: " ++ ", ".intercalate (names.map Text.quoted) ++ ")"

def message : UsageFault → String
  | .noSuchOption name similar => s!"No such option {Text.quoted name}." ++ offer "options" similar
  | .valueMissing option => s!"Option {Text.quoted option} requires an argument."
  | .valueUnexpected option => s!"Option {Text.quoted option} does not take a value."
  | .argumentMissing name => s!"Missing argument '{name}'."
  | .optionMissing name => s!"Missing option {name}."
  | .notFile name path => s!"Invalid value for {name}: File {Text.quoted path} is a directory."
  | .notDirectory name path => s!"Invalid value for {name}: Directory {Text.quoted path} is a file."
  | .extraArguments [argument] => s!"Got unexpected extra argument ({argument})"
  | .extraArguments arguments =>
    "Got unexpected extra arguments (" ++ " ".intercalate arguments ++ ")"
  | .commandMissing => "Missing command."
  | .noSuchCommand name similar =>
    s!"No such command {Text.quoted name}." ++ offer "commands" similar

def showsUsage : UsageFault → Bool
  | .valueMissing _ | .valueUnexpected _ => false
  | _ => true

end UsageFault

/-- The longest common run of two texts as its places in both and its length; the first of those in
the first text. -/
def longestRun (a b : List Char) : Nat × Nat × Nat :=
  let common (i j : Nat) : Nat :=
    (((a.drop i).zip (b.drop j)).takeWhile fun (x, y) => x == y).length
  let runs := (List.range a.length).flatMap fun i =>
    (List.range b.length).map fun j => (i, j, common i j)
  runs.foldl (fun best run => if best.2.2 < run.2.2 then run else best) (0, 0, 0)

/-- How many characters of two texts go together: those of the longest common run, and of the parts
before and after it. -/
def sharedCount : (fuel : Nat) → List Char → List Char → Nat
  | 0, _, _ => 0
  | fuel + 1, a, b =>
    let (i, j, n) := longestRun a b
    if n = 0 then 0
    else
      sharedCount fuel (a.take i) (b.take j) + n +
        sharedCount fuel (a.drop (i + n)) (b.drop (j + n))

/-- The three names at most that are most like one, of those that share three fifths with it. -/
def similarNames (name : String) (names : List String) : List String :=
  let scored := names.filterMap fun other =>
    let shared := sharedCount (other.length + 1) other.toList name.toList
    let total := other.length + name.length
    if 3 * total ≤ 10 * shared then some (shared, total, other) else none
  let sorted := scored.mergeSort fun (s, t, x) (s', t', x') =>
    s' * t < s * t' || (s' * t == s * t' && x' ≤ x)
  (sorted.take 3).map (·.2.2)

/-- The options that were given, in order, and the other arguments. -/
structure Arguments where
  options : List (OptionSpec × String)
  others : List String
  deriving DecidableEq, Repr

namespace Arguments

/-- Options that one argument gives, and the name of a last one whose value is still to come. -/
structure Found where
  options : List (OptionSpec × String)
  waiting : Option (OptionSpec × String)

/-- The options that letters give. The rest of the letters is the value of one that takes one. -/
def ofLetters (specs : List OptionSpec) : List Char → Except UsageFault Found
  | [] => .ok ⟨[], none⟩
  | c :: cs =>
    match specs.find? (·.letter == some c) with
    | none => .error (.noSuchOption (String.ofList ['-', c]) [])
    | some spec =>
      if spec.takesValue then
        if cs.isEmpty then .ok ⟨[], some (spec, String.ofList ['-', c])⟩
        else .ok ⟨[(spec, String.ofList cs)], none⟩
      else (ofLetters specs cs).map fun found => { found with options := (spec, "") :: found.options }

def ofDashed (specs : List OptionSpec) (argument : String) : Except UsageFault Found :=
  let name := String.ofList (argument.toList.takeWhile (· != '='))
  let value := argument.toList.drop (name.length + 1)
  match specs.find? (·.long == name) with
  | some spec =>
    if spec.takesValue then
      if argument.contains '=' then .ok ⟨[(spec, String.ofList value)], none⟩
      else .ok ⟨[], some (spec, name)⟩
    else if argument.contains '=' then .error (.valueUnexpected name)
    else .ok ⟨[(spec, "")], none⟩
  | none =>
    if argument.startsWith "--" then
      .error (.noSuchOption name (similarNames name (specs.map (·.long))))
    else ofLetters specs (argument.toList.drop 1)

def isDashed (argument : String) : Bool := argument.startsWith "-" && argument != "-"

/-- Reads arguments. `mixed` tells that options may follow other arguments. -/
def read (specs : List OptionSpec) (mixed : Bool) (sofar : Arguments) :
    List String → Except UsageFault Arguments
  | [] => .ok sofar
  | argument :: rest =>
    if argument = "--" then .ok { sofar with others := sofar.others ++ rest }
    else if isDashed argument then
      match ofDashed specs argument with
      | .error fault => .error fault
      | .ok found =>
        let sofar := { sofar with options := sofar.options ++ found.options }
        match found.waiting, rest with
        | none, rest => read specs mixed sofar rest
        | some (_, name), [] => .error (.valueMissing name)
        | some (spec, _), value :: rest =>
          read specs mixed { sofar with options := sofar.options ++ [(spec, value)] } rest
    else if mixed then read specs mixed { sofar with others := sofar.others ++ [argument] } rest
    else .ok { sofar with others := sofar.others ++ argument :: rest }

def value? (arguments : Arguments) (long : String) : Option String :=
  (arguments.options.reverse.find? (·.1.long == long)).map (·.2)

def has (arguments : Arguments) (long : String) : Bool := (arguments.value? long).isSome

end Arguments

end XmlRecords
