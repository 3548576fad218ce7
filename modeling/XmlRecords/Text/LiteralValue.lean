import XmlRecords.Text.Hexadecimal

/-!
What string literals between double quotes denote where generated source is read. Each escape stands
for the one code point that it names, so that two escapes of surrogates stand for two of them.
-/

set_option autoImplicit false
set_option relaxedAutoImplicit false

namespace XmlRecords.Text

inductive LiteralState where
  | plain
  /-- After a backslash. -/
  | escape
  /-- After one or two octal digits of a number. -/
  | octal (digits n : Nat)
  /-- Before so many more hexadecimal digits of a number. -/
  | hexadecimal (left n : Nat)
  | closed
  deriving DecidableEq, Repr

def octalValue? (c : Char) : Option Nat :=
  if '0' ≤ c ∧ c ≤ '7' then some (c.toNat - 48) else none

def simpleEscape? (c : Char) : Option Nat :=
  if c = '\\' ∨ c = '"' ∨ c = '\x27' then some c.toNat
  else if c = 'a' then some 7
  else if c = 'b' then some 8
  else if c = 't' then some 9
  else if c = 'n' then some 10
  else if c = 'v' then some 11
  else if c = 'f' then some 12
  else if c = 'r' then some 13
  else none

namespace LiteralState

/-- Reads a character outside escapes: the code points that it adds, and where the reader stands
then. Lines do not end inside a literal. -/
def readPlain? (c : Char) : Option (List Nat × LiteralState) :=
  if c = '"' then some ([], .closed)
  else if c = '\\' then some ([], .escape)
  else if c = '\n' ∨ c = '\r' ∨ c = '\x00' then none
  else some ([c.toNat], .plain)

/-- Reads the character after a backslash. An escape that is not known stands for itself; those by
character names are left out, since no literal is written with them. -/
def readEscape? (c : Char) : Option (List Nat × LiteralState) :=
  match simpleEscape? c, octalValue? c with
  | some n, _ => some ([n], .plain)
  | none, some n => some ([], .octal 1 n)
  | none, none =>
    if c = '\n' then some ([], .plain)
    else if c = 'x' then some ([], .hexadecimal 2 0)
    else if c = 'u' then some ([], .hexadecimal 4 0)
    else if c = 'U' then some ([], .hexadecimal 8 0)
    else if c = 'N' ∨ c = '\r' ∨ c = '\x00' then none
    else some (['\\'.toNat, c.toNat], .plain)

def read? : LiteralState → Char → Option (List Nat × LiteralState)
  | .plain, c => readPlain? c
  | .escape, c => readEscape? c
  | .octal digits n, c =>
    match octalValue? c with
    | some d =>
      if digits = 1 then some ([], .octal 2 (8 * n + d)) else some ([8 * n + d], .plain)
    | none => (readPlain? c).map fun (points, state) => (n :: points, state)
  | .hexadecimal left n, c =>
    match hexValue? c with
    | some d =>
      if left ≠ 1 then some ([], .hexadecimal (left - 1) (16 * n + d))
      else if 16 * n + d < 0x110000 then some ([16 * n + d], .plain)
      else none
    | none => none
  | .closed, _ => none

/-- Reads to the end of a literal: the code points on the way, and what follows the closing quote. -/
def readAll? : LiteralState → List Char → Option (List Nat × List Char)
  | .closed, cs => some ([], cs)
  | _, [] => none
  | state, c :: cs => do
    let (points, next) ← state.read? c
    let (others, rest) ← next.readAll? cs
    return (points ++ others, rest)

end LiteralState

/-- The code points that the literal at the front of a text denotes, and what follows it. Three quotes
are no literal of this kind. -/
def readLiteral? : List Char → Option (List Nat × List Char)
  | '"' :: '"' :: '"' :: _ => none
  | '"' :: cs => LiteralState.plain.readAll? cs
  | _ => none

/-- Holds of a text that is one literal, which denotes a string. -/
def Denotes (text value : String) : Prop :=
  readLiteral? text.toList = some (value.toList.map Char.toNat, [])

end XmlRecords.Text
