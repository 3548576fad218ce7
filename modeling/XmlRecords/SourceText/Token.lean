import XmlRecords.Identifier
import XmlRecords.Text.IdentifierChar
import XmlRecords.Text.LiteralValue
import XmlRecords.Xml.LineEnd

/-!
The tokens of source text, as the interpreter reads it. The reader takes what generated source is made
of: words, signs, and literals between double quotes, of which those between three quotes may span
lines. Everything else that source may hold is refused: comments, tabs, continued lines, literals with
other quotes or prefixes. Signs are read one by one, and numbers as words of digits.
-/

set_option autoImplicit false
set_option relaxedAutoImplicit false

namespace XmlRecords.SourceText

open Text

inductive Token where
  /-- A line begins here, after so many blanks. -/
  | line (margin : Nat)
  | word (text : String)
  | sign (c : Char)
  /-- A string literal, by the code points that it denotes. -/
  | literal (points : List Nat)
  /-- A formatted literal, by its code points before it is formatted. -/
  | formatted (points : List Nat)
  deriving DecidableEq, Repr

def signs : List Char := "()[]\x7b\x7d,:;.=@|-+*/%<>!&~^".toList

def isWordPart (c : Char) : Bool :=
  Identifier.isWordChar c || (0x80 ≤ c.toNat && isIdentifierPart c)

/-- Holds of the words that are identifiers or numbers, given that all characters may be part of one. -/
def isWord : List Char → Bool
  | [] => false
  | c :: cs =>
    c.isAlpha || c == '_' || (0x80 ≤ c.toNat && isIdentifierStart c) || (c :: cs).all Char.isDigit

inductive Reader where
  /-- At the start of a line, after so many blanks. -/
  | margin (blanks : Nat)
  | gap
  | word (cs : List Char)
  /-- After one quote, or two quotes, which may be those of the empty literal. -/
  | opened (isFormatted : Bool)
  | openedTwice (isFormatted : Bool)
  | short (isFormatted : Bool) (state : LiteralState) (points : List Nat)
  /-- Between three quotes, after so many quotes that may be the last ones. -/
  | long (quotes : Nat) (state : LiteralState) (points : List Nat)
  deriving DecidableEq, Repr

def Token.before (t : Token) (result : List Token × Reader) : List Token × Reader :=
  (t :: result.1, result.2)

def literalToken (isFormatted : Bool) (points : List Nat) : Token :=
  if isFormatted then .formatted points else .literal points

def readLongPoint? (state : LiteralState) (c : Char) : Option (List Nat × LiteralState) :=
  if c = '\n' then
    match state with
    | .plain => some ([10], .plain)
    | .octal _ n => some ([n, 10], .plain)
    | .escape => some ([], .plain)
    | .hexadecimal .. | .closed => none
  else state.read? c

namespace Reader

def gapStep? (c : Char) : Option (List Token × Reader) :=
  if c = ' ' then some ([], .gap)
  else if c = '\n' then some ([], .margin 0)
  else if c = '"' then some ([], .opened false)
  else if isWordPart c then some ([], .word [c])
  else if signs.contains c then some ([.sign c], .gap)
  else none

def shortStep? (isFormatted : Bool) (state : LiteralState) (points : List Nat) (c : Char) :
    Option (List Token × Reader) :=
  (state.read? c).map fun (more, next) =>
    if next = .closed then ([literalToken isFormatted (points ++ more)], .gap)
    else ([], .short isFormatted next (points ++ more))

def longStep? (quotes : Nat) (state : LiteralState) (points : List Nat) (c : Char) :
    Option (List Token × Reader) :=
  (readLongPoint? state c).map fun (more, next) =>
    if next = .closed then
      if quotes = 2 then ([.literal (points ++ more)], .gap)
      else ([], .long (quotes + 1) .plain (points ++ more))
    else ([], .long 0 next (points ++ List.replicate quotes '"'.toNat ++ more))

def step? : Reader → Char → Option (List Token × Reader)
  | .margin blanks, c =>
    if c = ' ' then some ([], .margin (blanks + 1))
    else if c = '\n' then some ([], .margin 0)
    else (gapStep? c).map (Token.line blanks).before
  | .gap, c => gapStep? c
  | .word cs, c =>
    if isWordPart c then some ([], .word (cs ++ [c]))
    else if c = '"' then if cs = ['f'] then some ([], .opened true) else none
    else if isWord cs then (gapStep? c).map (Token.word (String.ofList cs)).before
    else none
  | .opened isFormatted, c =>
    if c = '"' then some ([], .openedTwice isFormatted) else shortStep? isFormatted .plain [] c
  | .openedTwice isFormatted, c =>
    if c = '"' then if isFormatted then none else some ([], .long 0 .plain [])
    else (gapStep? c).map (literalToken isFormatted []).before
  | .short isFormatted state points, c => shortStep? isFormatted state points c
  | .long quotes state points, c => longStep? quotes state points c

/-- Reads on: the tokens on the way, and where the reader stands then. -/
def run? : Reader → List Char → Option (List Token × Reader)
  | reader, [] => some ([], reader)
  | reader, c :: cs => do
    let (tokens, next) ← reader.step? c
    let (others, last) ← next.run? cs
    return (tokens ++ others, last)

end Reader

def tokens? (text : String) : Option (List Token) :=
  match (Reader.margin 0).run? (Xml.normalizeLines false text.toList) with
  | some (tokens, .margin _) => some tokens
  | _ => none

end XmlRecords.SourceText
