import XmlRecords.Xml.Piece

/-!
The tokens of element content: character data, CDATA sections, comments, processing instructions,
start tags and end tags. Markup is taken apart here; whether tags match is judged later.
-/

set_option autoImplicit false
set_option relaxedAutoImplicit false

namespace XmlRecords.Xml

inductive Token where
  | characters (pieces : List Piece)
  | cdata (s : String)
  | comment (s : String)
  | instruction (target data : String)
  | opening (name : String) (attributes : List (String × List Piece)) (closed : Bool)
  | closing (name : String)
  deriving DecidableEq, Repr

/-- What comes before the first occurrence of a text, and what comes after it. -/
def splitAround? (mark : List Char) : List Char → Option (List Char × List Char)
  | [] => if mark.isEmpty then some ([], []) else none
  | c :: cs =>
    if mark.isPrefixOf (c :: cs) then some ([], (c :: cs).drop mark.length)
    else (splitAround? mark cs).map fun (before, after) => (c :: before, after)

def dropText? (text : String) (cs : List Char) : Option (List Char) :=
  if text.toList.isPrefixOf cs then some (cs.drop text.length) else none

def skipBlanks (cs : List Char) : List Char := cs.dropWhile Text.isXmlBlank

/-- Skips blanks, of which there has to be one at least. -/
def skipBlanks? : List Char → Option (List Char)
  | c :: cs => if Text.isXmlBlank c then some (skipBlanks cs) else none
  | [] => none

def takeName? (cs : List Char) : Option (String × List Char) :=
  let name := cs.takeWhile isNameChar
  if isName name then some (String.ofList name, cs.drop name.length) else none

def takeQuoted? : List Char → Option (List Char × List Char)
  | [] => none
  | quote :: cs =>
    if quote = '"' ∨ quote = '\'' then
      let body := cs.takeWhile (· != quote)
      match cs.drop body.length with
      | [] => none
      | _ :: rest => some (body, rest)
    else none

def takeEquals? (cs : List Char) : Option (List Char) :=
  match skipBlanks cs with
  | '=' :: rest => some (skipBlanks rest)
  | _ => none

/-- The rest of a comment after its opening; two hyphens may stand only at its end. -/
def takeComment? (cs : List Char) : Option (String × List Char) :=
  match splitAround? ['-', '-'] cs with
  | some (body, '>' :: rest) => some (String.ofList body, rest)
  | _ => none

/-- Holds of the targets an instruction may have: names without a colon other than `xml`. -/
def isTarget (name : String) : Bool :=
  !name.toList.contains ':' && String.ofList (name.toList.map Char.toLower) != "xml"

/-- The rest of a processing instruction after its opening: target and data. -/
def takeInstruction? (cs : List Char) : Option (String × String × List Char) := do
  let (target, rest) ← takeName? cs
  if !isTarget target then none
  else
    match dropText? "?>" rest with
    | some rest => some (target, "", rest)
    | none =>
      let (data, rest) ← splitAround? ['?', '>'] (← skipBlanks? rest)
      some (target, String.ofList data, rest)

/-- The pieces of an attribute value in quotes; it may not hold a `<`. -/
def takeValue? (cs : List Char) : Option (List Piece × List Char) := do
  let (body, rest) ← takeQuoted? cs
  if body.contains '<' then none
  else
    let pieces ← pieces? none body
    some (pieces, rest)

/-- The attributes of a start tag, whether it closes its element too, and the rest. Each attribute
has a blank in front of it. The fuel bounds their number. -/
def takeAttributes? :
    (fuel : Nat) → List Char → Option (List (String × List Piece) × Bool × List Char)
  | 0, _ => none
  | fuel + 1, cs =>
    match skipBlanks cs with
    | '>' :: rest => some ([], false, rest)
    | '/' :: '>' :: rest => some ([], true, rest)
    | _ => do
      let (name, rest) ← takeName? (← skipBlanks? cs)
      let (value, rest) ← takeValue? (← takeEquals? rest)
      let (attributes, closed, rest) ← takeAttributes? fuel rest
      some ((name, value) :: attributes, closed, rest)

/-- The token that starts with `<`, given what follows. The fuel bounds the number of attributes. -/
def takeMarkup? (fuel : Nat) (cs : List Char) : Option (Token × List Char) :=
  match cs with
  | '!' :: '-' :: '-' :: rest =>
    (takeComment? rest).map fun (s, rest) => (.comment s, rest)
  | '!' :: '[' :: 'C' :: 'D' :: 'A' :: 'T' :: 'A' :: '[' :: rest =>
    (splitAround? [']', ']', '>'] rest).map fun (s, rest) => (.cdata (String.ofList s), rest)
  | '?' :: rest =>
    (takeInstruction? rest).map fun (target, data, rest) => (.instruction target data, rest)
  | '/' :: rest => do
    let (name, rest) ← takeName? rest
    match skipBlanks rest with
    | '>' :: rest => some (.closing name, rest)
    | _ => none
  | _ => do
    let (name, rest) ← takeName? cs
    let (attributes, closed, rest) ← takeAttributes? fuel rest
    some (.opening name attributes closed, rest)

/-- Character data in front of markup; it may not hold the end mark of CDATA sections. -/
def takeCharacters? (cs : List Char) : Option (Token × List Char) :=
  let run := cs.takeWhile (· != '<')
  match splitAround? [']', ']', '>'] run with
  | some _ => none
  | none => (pieces? none run).map fun pieces => (.characters pieces, cs.drop run.length)

/-- The tokens of element content; `read` holds those before, last first. A token takes a character
at least, and so does an attribute, so the length of the content is fuel enough for both. -/
def tokensFrom? : (fuel : Nat) → (read : List Token) → List Char → Option (List Token)
  | _, read, [] => some read.reverse
  | 0, _, _ :: _ => none
  | fuel + 1, read, c :: cs =>
    match if c = '<' then takeMarkup? (fuel + 1) cs else takeCharacters? (c :: cs) with
    | some (token, rest) => tokensFrom? fuel (token :: read) rest
    | none => none

def tokens? (cs : List Char) : Option (List Token) := tokensFrom? cs.length [] cs

end XmlRecords.Xml
