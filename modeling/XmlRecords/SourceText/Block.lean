import XmlRecords.SourceText.Token

/-!
The statements of source text: its lines, which go on inside brackets, and the lines further to the
right that belong to a line.
-/

set_option autoImplicit false
set_option relaxedAutoImplicit false

namespace XmlRecords.SourceText

/-- A line, with those that go on from it inside brackets. -/
structure Line where
  margin : Nat
  tokens : List Token
  deriving DecidableEq, Repr

def Token.depthAfter (depth : Nat) : Token → Nat
  | .sign c =>
    if c = '(' ∨ c = '[' ∨ c = '\x7b' then depth + 1
    else if c = ')' ∨ c = ']' ∨ c = '\x7d' then depth - 1
    else depth
  | _ => depth

/-- What is left of the line in which tokens begin inside so many brackets, and the lines after it. -/
def splitLines : (depth : Nat) → List Token → List Token × List Line
  | _, [] => ([], [])
  | depth, .line margin :: tokens =>
    if depth = 0 then
      let (own, lines) := splitLines 0 tokens
      ([], ⟨margin, own⟩ :: lines)
    else splitLines depth tokens
  | depth, token :: tokens =>
    let (own, lines) := splitLines (token.depthAfter depth) tokens
    (token :: own, lines)

/-- A statement: its first line, and the lines that belong to it. -/
structure Block where
  margin : Nat
  head : List Token
  body : List Line
  deriving DecidableEq, Repr

def Block.lines (b : Block) : List Line := ⟨b.margin, b.head⟩ :: b.body

/-- The statements of lines: a line takes the lines after it that stand further to the right. -/
def blocks : List Line → List Block
  | [] => []
  | line :: lines =>
    let below := blocks lines
    ⟨line.margin, line.tokens, (below.takeWhile (line.margin < ·.margin)).flatMap Block.lines⟩ ::
      below.dropWhile (line.margin < ·.margin)

/-- The statements of a text, if all of it can be read. -/
def read? (text : String) : Option (List Block) :=
  (tokens? text).map fun tokens => blocks (splitLines 0 tokens).2

namespace Block

def className? (b : Block) : Option String :=
  match b.head with
  | .word "class" :: .word name :: _ => some name
  | _ => none

def functionName? (b : Block) : Option String :=
  match b.head with
  | .word "def" :: .word name :: _ => some name
  | _ => none

/-- The name that a statement gives a value, and the value. -/
def assignment? (b : Block) : Option (String × List Token) :=
  match b.head with
  | .word name :: .sign '=' :: value => some (name, value)
  | _ => none

/-- The name that a statement annotates, and the annotation. -/
def annotation? (b : Block) : Option (String × List Token) :=
  match b.head with
  | .word name :: .sign ':' :: annotation => some (name, annotation)
  | _ => none

def doc? (b : Block) : Option (List Nat) :=
  match b.head with
  | [.literal points] => some points
  | _ => none

def inner (b : Block) : List Block := blocks b.body

end Block

def wordsOf (tokens : List Token) : List String :=
  tokens.filterMap fun
    | .word text => some text
    | _ => none

/-- The path of the module that a statement imports names from, by its words, and the names. -/
def Block.import? (b : Block) : Option (List String × List String) :=
  match b.head with
  | .word "from" :: rest =>
    some (wordsOf (rest.takeWhile (· != .word "import")), wordsOf (rest.dropWhile (· != .word "import")).tail)
  | _ => none

def Block.binds (b : Block) : List String :=
  b.className?.toList ++ b.functionName?.toList ++ (b.assignment?.map (·.1)).toList ++
    (b.import?.map (·.2)).getD []

/-- The names in tokens, those of attributes left out; `dotted` tells that a dot was just read. -/
def names : (dotted : Bool) → List Token → List String
  | _, [] => []
  | dotted, .word text :: tokens => (if dotted then [] else [text]) ++ names false tokens
  | _, .sign c :: tokens => names (c == '.') tokens
  | _, _ :: tokens => names false tokens

/-- The name and the method that are called where an opening bracket follows these tokens, the last one
first, if it is a method of a name. -/
def callee? : List Token → Option (String × String)
  | .word method :: .sign '.' :: .word name :: before =>
    if before.head? = some (.sign '.') then none else some (name, method)
  | _ => none

/-- The calls in tokens of methods of names; `read` is what was read before, the last token first. -/
def calls : (read : List Token) → List Token → List (String × String)
  | _, [] => []
  | read, token :: tokens =>
    (if token = .sign '(' then (callee? read).toList else []) ++ calls (token :: read) tokens

/-- Holds of the names that are private to the class in which they are read. -/
def isPrivate (name : String) : Bool :=
  ['_', '_'].isPrefixOf name.toList && !List.isSuffixOf ['_', '_'] name.toList

def mangle (className name : String) : String :=
  let stem := className.toList.dropWhile (· == '_')
  if isPrivate name && !stem.isEmpty then String.ofList ('_' :: stem) ++ name else name

def codecMethods : List String := ["parse", "format", "zero"]

end XmlRecords.SourceText
