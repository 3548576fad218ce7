import XmlRecords.Number.Shortest
import XmlRecords.Text.Blank
import XmlRecords.Text.DecimalDigit

/-!
Numbers as text. Digits of every script are read, single underscores may divide digits, and blanks
may stand around. Integers are written in decimal; floating point numbers in the fewest digits that
read back, positionally when the decimal exponent lies from -4 to 15.
-/

set_option autoImplicit false
set_option relaxedAutoImplicit false

namespace XmlRecords.Number

open XmlRecords.Text

inductive IntegerFault where
  | malformed
  | tooLong (digits : Nat)
  deriving DecidableEq, Repr

def digitLimit : Nat := 4300

def ofDigits (digits : List Nat) : Nat := digits.foldl (fun n d => 10 * n + d) 0

/-- Splits off a sign; the flag says that it is a minus. -/
def takeSign : List Char → Bool × List Char
  | '-' :: rest => (true, rest)
  | '+' :: rest => (false, rest)
  | cs => (false, cs)

/-- Leaves out the underscores, each of which has to stand between two digits; `afterDigit` tells
that a digit comes before. -/
def joinGroups? (afterDigit : Bool) : List Char → Option (List Char)
  | [] => some []
  | '_' :: rest =>
    if afterDigit && (rest.head?.map isDecimalDigit).getD false then joinGroups? false rest
    else none
  | c :: rest => (joinGroups? (isDecimalDigit c) rest).map (c :: ·)

/-- The value of decimal digits, in front of what follows them. -/
def takeDigits (cs : List Char) : List Nat × List Char :=
  ((cs.takeWhile isDecimalDigit).filterMap digitValue?, cs.dropWhile isDecimalDigit)

def signed (negative : Bool) (n : Nat) : Int := if negative then -(n : Int) else n

/-- The integer a text denotes. The count of digits is judged before what follows them. -/
def integerOfText (s : String) : Except IntegerFault Int :=
  let (negative, body) := takeSign (trimBoth isNumberPadding s.toList)
  match joinGroups? false body with
  | none => .error .malformed
  | some cs =>
    let (digits, rest) := takeDigits cs
    if digitLimit < digits.length then .error (.tooLong digits.length)
    else if digits.isEmpty || !rest.isEmpty then .error .malformed
    else .ok (signed negative (ofDigits digits))

/-- The exponent part of a real number: nothing, or an `e` and a signed integer. -/
def takeExponent? : List Char → Option Int
  | [] => some 0
  | c :: rest =>
    if c = 'e' ∨ c = 'E' then
      let (negative, body) := takeSign rest
      let (digits, rest) := takeDigits body
      if digits.isEmpty || !rest.isEmpty then none else some (signed negative (ofDigits digits))
    else none

def unsignedReal? (negative : Bool) (cs : List Char) : Option Binary64 :=
  match String.ofList (cs.map Char.toLower) with
  | "inf" | "infinity" => some (.infinity negative)
  | "nan" => some .nan
  | _ => do
    let cs ← joinGroups? false cs
    let (whole, rest) := takeDigits cs
    let (fraction, rest) :=
      match rest with
      | '.' :: rest => takeDigits rest
      | rest => ([], rest)
    if whole.isEmpty && fraction.isEmpty then none
    else
      let exponent ← takeExponent? rest
      some (.ofDecimal negative (ofDigits (whole ++ fraction)) (exponent - fraction.length))

def realOfText? (s : String) : Option Binary64 :=
  let (negative, body) := takeSign (trimBoth isNumberPadding s.toList)
  unsignedReal? negative body

def zeros (n : Nat) : String := String.ofList (List.replicate n '0')

/-- The digits of a decimal with a point after the first `1 + exponent` of them. -/
def positional (digits : String) (exponent : Int) : String :=
  if exponent < 0 then "0." ++ zeros (-exponent - 1).toNat ++ digits
  else
    let whole := exponent.toNat + 1
    let cs := digits.toList
    if cs.length ≤ whole then digits ++ zeros (whole - cs.length) ++ ".0"
    else String.ofList (cs.take whole) ++ "." ++ String.ofList (cs.drop whole)

/-- One digit, the others after a point, and the exponent with its sign and at least two digits. -/
def scientific (digits : String) (exponent : Int) : String :=
  let mantissa :=
    match digits.toList with
    | [] => ""
    | [d] => String.ofList [d]
    | d :: rest => String.ofList (d :: '.' :: rest)
  let e := toString exponent.natAbs
  mantissa ++ (if exponent < 0 then "e-" else "e+") ++ (if e.length < 2 then "0" ++ e else e)

def Binary64.text : Binary64 → String
  | .nan => "nan"
  | .infinity negative => if negative then "-inf" else "inf"
  | .finite negative m q =>
    let d := shortest m q
    let digits := toString d.digits
    let exponent : Int := d.exponent + digits.length - 1
    (if negative then "-" else "") ++
      if -4 ≤ exponent ∧ exponent < 16 then positional digits exponent
      else scientific digits exponent

end XmlRecords.Number
