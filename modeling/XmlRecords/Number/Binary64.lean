/-!
Binary floating point numbers of 64 bits as exact values. A finite number is a significand times a
power of two; rounding takes the nearest one, and of two nearest the one with an even significand.
-/

set_option autoImplicit false
set_option relaxedAutoImplicit false

namespace XmlRecords.Number

/-- A floating point number. `finite negative m q` is `± m * 2 ^ q`; the numbers built here have
`m < 2 ^ 53` and `-1074 ≤ q`, with `2 ^ 52 ≤ m` unless `q = -1074`, so each has one form. -/
inductive Binary64 where
  | nan
  | infinity (negative : Bool)
  | finite (negative : Bool) (significand : Nat) (exponent : Int)
  deriving DecidableEq, Repr

/-- The quotient rounded to the nearest natural number, a half to the even one. -/
def divNearestEven (num den : Nat) : Nat :=
  let q := num / den
  let r := num % den
  if 2 * r < den then q
  else if den < 2 * r then q + 1
  else if q % 2 = 0 then q else q + 1

def scaledFraction (num den : Nat) (shift : Int) : Nat × Nat :=
  if 0 ≤ shift then (num, den * Nat.pow 2 shift.toNat) else (num * Nat.pow 2 (-shift).toNat, den)

namespace Binary64

def zero : Binary64 := .finite false 0 (-1074)

/-- The exponent of the last place of a number near `num / den`. -/
def lastPlace (num den : Nat) : Int :=
  let guess : Int := (Nat.log2 num : Int) - (Nat.log2 den : Int) - 52
  let (n, d) := scaledFraction num den guess
  max (-1074) (if n < d * Nat.pow 2 52 then guess - 1 else guess)

def ofFraction (negative : Bool) (num den : Nat) : Binary64 :=
  if num = 0 then .finite negative 0 (-1074)
  else
    let q := lastPlace num den
    let (n, d) := scaledFraction num den q
    let m := divNearestEven n d
    let (m, q) := if m = Nat.pow 2 53 then (Nat.pow 2 52, q + 1) else (m, q)
    if 971 < q then .infinity negative else .finite negative m q

/-- The number nearest to `± digits * 10 ^ exponent`. Exponents far outside the range are settled by
the count of digits, so that no huge power is formed. -/
def ofDecimal (negative : Bool) (digits : Nat) (exponent : Int) : Binary64 :=
  if digits = 0 then .finite negative 0 (-1074)
  else
    -- a number of `b + 1` bits has from `b * 3 / 10` to `b / 3 + 1` decimal digits
    let bits : Int := Nat.log2 digits
    if 400 < bits * 3 / 10 + exponent then .infinity negative
    else if bits / 3 + 1 + exponent < -400 then .finite negative 0 (-1074)
    else if 0 ≤ exponent then ofFraction negative (digits * Nat.pow 10 exponent.toNat) 1
    else ofFraction negative digits (Nat.pow 10 (-exponent).toNat)

def ofInt (n : Int) : Binary64 := ofFraction (n < 0) n.natAbs 1

def magnitude (significand : Nat) (exponent : Int) : Nat × Nat :=
  if 0 ≤ exponent then (significand * Nat.pow 2 exponent.toNat, 1)
  else (significand, Nat.pow 2 (-exponent).toNat)

/-- The integer part toward zero, none for the numbers that are not finite. -/
def truncate? : Binary64 → Option Int
  | .finite negative m q =>
    let (num, den) := magnitude m q
    some (if negative then -(num / den : Nat) else (num / den : Nat))
  | _ => none

/-- The exact integer a number stands for, none if it stands for no integer. -/
def toInt? : Binary64 → Option Int
  | .finite negative m q =>
    let (num, den) := magnitude m q
    if num % den = 0 then some (if negative then -(num / den : Nat) else (num / den : Nat)) else none
  | _ => none

def isZero : Binary64 → Bool
  | .finite _ m _ => m == 0
  | _ => false

/-- Equality of values: the two zeros are equal, and NaN differs from every number. -/
def same (x y : Binary64) : Bool :=
  match x, y with
  | .nan, _ => false
  | _, .nan => false
  | x, y => (x.isZero && y.isZero) || x == y

end Binary64

end XmlRecords.Number
