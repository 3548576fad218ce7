import XmlRecords.Text.Hexadecimal
import XmlRecords.Xml.Char

/-!
Character data in pieces: characters that stand in the document, characters given by a reference,
and references to entities. Only the first kind is subject to normalization.
-/

set_option autoImplicit false
set_option relaxedAutoImplicit false

namespace XmlRecords.Xml

inductive Piece where
  | literal (c : Char)
  | character (c : Char)
  | entity (name : String)
  deriving DecidableEq, Repr

def Piece.isEntity : Piece → Bool
  | .entity _ => true
  | _ => false

def predefined? : String → Option Char
  | "lt" => some '<'
  | "gt" => some '>'
  | "amp" => some '&'
  | "quot" => some '"'
  | "apos" => some '\''
  | _ => none

def charOfCode? (code : Nat) : Option Char :=
  if h : code.isValidChar then
    let c := Char.ofNatAux code h
    if isXmlChar c then some c else none
  else none

def decimalNumber? (cs : List Char) : Option Nat :=
  if !cs.isEmpty && cs.all Char.isDigit then
    some (cs.foldl (fun n c => 10 * n + (c.toNat - 48)) 0)
  else none

def hexadecimalNumber? (cs : List Char) : Option Nat :=
  if cs.isEmpty then none else Text.hexNumber? cs

/-- The piece that a reference stands for, given what is between its ampersand and semicolon. -/
def reference? : List Char → Option Piece
  | '#' :: 'x' :: digits => ((hexadecimalNumber? digits).bind charOfCode?).map .character
  | '#' :: digits => ((decimalNumber? digits).bind charOfCode?).map .character
  | name =>
    if isName name then
      match predefined? (String.ofList name) with
      | some c => some (.character c)
      | none => some (.entity (String.ofList name))
    else none

/-- The pieces of character data. `reading` holds what was read of a reference, last first. -/
def pieces? : (reading : Option (List Char)) → List Char → Option (List Piece)
  | none, [] => some []
  | some _, [] => none
  | none, c :: cs =>
    if c = '&' then pieces? (some []) cs else (pieces? none cs).map (.literal c :: ·)
  | some read, c :: cs =>
    if c = ';' then
      match reference? read.reverse with
      | some piece => (pieces? none cs).map (piece :: ·)
      | none => none
    else pieces? (some (c :: read)) cs

end XmlRecords.Xml
