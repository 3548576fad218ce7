import XmlRecords.Json.Basic

/-!
Reading JSON text. A refusal says what was expected and how much of the text was left there, from
which its line, column and place are counted.
-/

set_option autoImplicit false
set_option relaxedAutoImplicit false

namespace XmlRecords.Json

open Number

inductive Refusal where
  | value
  | propertyName
  | colon
  | comma
  | extraData
  | unterminatedString
  | controlCharacter
  | escape
  | unicodeEscape
  | byteOrderMark
  | integerTooLong (digits : Nat)
  deriving DecidableEq, Repr

def Refusal.message : Refusal → String
  | .value => "Expecting value"
  | .propertyName => "Expecting property name enclosed in double quotes"
  | .colon => "Expecting ':' delimiter"
  | .comma => "Expecting ',' delimiter"
  | .extraData => "Extra data"
  | .unterminatedString => "Unterminated string starting at"
  | .controlCharacter => "Invalid control character at"
  | .escape => "Invalid \\escape"
  | .unicodeEscape => "Invalid \\uXXXX escape"
  | .byteOrderMark => "Unexpected UTF-8 BOM (decode using utf-8-sig)"
  | .integerTooLong _ => "Exceeds the limit for integer string conversion"

/-- A refusal with the count of characters left from the place it concerns. -/
structure Stop where
  refusal : Refusal
  left : Nat
  deriving DecidableEq, Repr

def Stop.message (stop : Stop) (text : String) : String :=
  let before := text.toList.take (text.length - stop.left)
  let line := before.count '\n' + 1
  let column := (before.reverse.takeWhile (· != '\n')).length + 1
  s!"{stop.refusal.message}: line {line} column {column} (char {before.length})"

def isSpace (c : Char) : Bool := c == ' ' || c == '\t' || c == '\n' || c == '\r'

def skipSpace (cs : List Char) : List Char := cs.dropWhile isSpace

/-- The characters of UTF-16 units. Texts here hold Unicode scalar values only: a unit without its
partner, which the original reader keeps as a code point of its own, becomes U+FFFD. -/
def ofUnits : List Nat → List Char
  | [] => []
  | u :: units =>
    if 0xD800 ≤ u ∧ u < 0xDC00 then
      match units with
      | v :: rest =>
        if 0xDC00 ≤ v ∧ v < 0xE000 then
          Char.ofNat (0x10000 + (u - 0xD800) * 0x400 + (v - 0xDC00)) :: ofUnits rest
        else '\ufffd' :: ofUnits (v :: rest)
      | [] => ['\ufffd']
    else (if 0xDC00 ≤ u ∧ u < 0xE000 then '\ufffd' else Char.ofNat u) :: ofUnits units

def simpleEscape? : Char → Option Char
  | '"' => some '"'
  | '\\' => some '\\'
  | '/' => some '/'
  | 'b' => some '\x08'
  | 'f' => some '\x0c'
  | 'n' => some '\n'
  | 'r' => some '\r'
  | 't' => some '\t'
  | _ => none

/-- The rest of a string after its opening quote; `opening` counts the characters from that quote. -/
def readString (opening : Nat) (units : List Nat) :
    List Char → Except Stop (String × List Char)
  | [] => .error ⟨.unterminatedString, opening⟩
  | '"' :: rest => .ok (String.ofList (ofUnits units.reverse), rest)
  | '\\' :: 'u' :: a :: b :: c :: d :: e :: rest =>
    match Text.hexNumber? [a, b, c, d] with
    | some n => readString opening (n :: units) (e :: rest)
    | none => .error ⟨.unicodeEscape, rest.length + 6⟩
  | '\\' :: 'u' :: rest => .error ⟨.unicodeEscape, rest.length + 1⟩
  | '\\' :: c :: rest =>
    match simpleEscape? c with
    | some c => readString opening (c.toNat :: units) rest
    | none => .error ⟨.escape, rest.length + 2⟩
  | ['\\'] => .error ⟨.unterminatedString, opening⟩
  | c :: rest =>
    if c.toNat < 0x20 then .error ⟨.controlCharacter, rest.length + 1⟩
    else readString opening (c.toNat :: units) rest

def takeFraction (cs : List Char) : List Char × List Char :=
  match cs with
  | '.' :: c :: rest =>
    if c.isDigit then ((c :: rest).takeWhile Char.isDigit, (c :: rest).dropWhile Char.isDigit)
    else ([], cs)
  | _ => ([], cs)

def takePower (cs : List Char) : Option Int × List Char :=
  match cs with
  | e :: rest =>
    if e = 'e' ∨ e = 'E' then
      let (negative, body) := takeSign rest
      let (digits, after) := (body.takeWhile Char.isDigit, body.dropWhile Char.isDigit)
      if digits.isEmpty then (none, cs)
      else (some (signed negative (ofDigits (digits.filterMap Text.digitValue?))), after)
    else (none, cs)
  | [] => (none, cs)

/-- The whole digits of a number: a zero, or digits that do not start with one. -/
def takeWhole : List Char → List Char × List Char
  | '0' :: rest => (['0'], rest)
  | cs => (cs.takeWhile Char.isDigit, cs.dropWhile Char.isDigit)

def readNumber (cs : List Char) : Except Stop (Json × List Char) :=
  let (negative, body) :=
    match cs with
    | '-' :: rest => (true, rest)
    | _ => (false, cs)
  let (whole, rest) := takeWhole body
  if whole.isEmpty then .error ⟨.value, cs.length⟩
  else
    let (fraction, rest) := takeFraction rest
    let (power, rest) := takePower rest
    let digits := ofDigits ((whole ++ fraction).filterMap Text.digitValue?)
    if fraction.isEmpty && power.isNone then
      if digitLimit < whole.length then .error ⟨.integerTooLong whole.length, cs.length⟩
      else .ok (.integer (signed negative digits), rest)
    else .ok (.real (.ofDecimal negative digits (power.getD 0 - fraction.length)), rest)

def words : List (String × Json) := [
  ("null", .null), ("true", .boolean true), ("false", .boolean false), ("NaN", .real .nan),
  ("Infinity", .real (.infinity false)), ("-Infinity", .real (.infinity true))]

def readWord? (cs : List Char) : Option (Json × List Char) :=
  words.findSome? fun (word, value) =>
    if word.toList.isPrefixOf cs then some (value, cs.drop word.length) else none

mutual
/-- Reads the value a text starts with. The fuel bounds the count of values and separators. -/
def readValue : (fuel : Nat) → List Char → Except Stop (Json × List Char)
  | 0, cs => .error ⟨.value, cs.length⟩
  | fuel + 1, cs =>
    match cs with
    | '"' :: rest => (readString cs.length [] rest).map fun (s, rest) => (.text s, rest)
    | '\x7b' :: rest =>
      match skipSpace rest with
      | '\x7d' :: rest => .ok (.object [], rest)
      | rest => (readMembers fuel [] rest).map fun (members, rest) => (.object members, rest)
    | '[' :: rest =>
      match skipSpace rest with
      | ']' :: rest => .ok (.array [], rest)
      | rest => (readItems fuel [] rest).map fun (items, rest) => (.array items, rest)
    | _ =>
      match readWord? cs with
      | some found => .ok found
      | none => readNumber cs

/-- Reads items up to the closing bracket; `items` holds those already read, last first. -/
def readItems : (fuel : Nat) → (items : List Json) → List Char →
    Except Stop (List Json × List Char)
  | 0, _, cs => .error ⟨.value, cs.length⟩
  | fuel + 1, items, cs =>
    match readValue fuel cs with
    | .error stop => .error stop
    | .ok (item, rest) =>
      match skipSpace rest with
      | ']' :: rest => .ok ((item :: items).reverse, rest)
      | ',' :: rest => readItems fuel (item :: items) (skipSpace rest)
      | rest => .error ⟨.comma, rest.length⟩

/-- Reads members up to the closing brace; the last value of a repeated key stands. -/
def readMembers : (fuel : Nat) → (members : List (String × Json)) → List Char →
    Except Stop (List (String × Json) × List Char)
  | 0, _, cs => .error ⟨.propertyName, cs.length⟩
  | fuel + 1, members, cs =>
    match cs with
    | '"' :: rest =>
      match readString cs.length [] rest with
      | .error stop => .error stop
      | .ok (key, rest) =>
        match skipSpace rest with
        | ':' :: rest =>
          match readValue fuel (skipSpace rest) with
          | .error stop => .error stop
          | .ok (value, rest) =>
            match skipSpace rest with
            | '\x7d' :: rest => .ok (putMember key value members, rest)
            | ',' :: rest => readMembers fuel (putMember key value members) (skipSpace rest)
            | rest => .error ⟨.comma, rest.length⟩
        | rest => .error ⟨.colon, rest.length⟩
    | cs => .error ⟨.propertyName, cs.length⟩
end

/-- The JSON value a whole text denotes, however deep it is nested: the limit that an interpreter sets to
its own recursion, and the failure of a reader that exceeds it, are left out. -/
def read (text : String) : Except Stop Json :=
  let cs := text.toList
  match cs with
  | '\ufeff' :: _ => .error ⟨.byteOrderMark, cs.length⟩
  | _ =>
    match readValue (cs.length + 1) (skipSpace cs) with
    | .error stop => .error stop
    | .ok (value, rest) =>
      match skipSpace rest with
      | [] => .ok value
      | rest => .error ⟨.extraData, rest.length⟩

end XmlRecords.Json
