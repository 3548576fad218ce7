import XmlRecords.Number.Binary64

/-!
The shortest decimal that reads back as a floating point number. For one digit, two, and so on, the
two decimals next to the number on that grid are tried, the nearer first.
-/

set_option autoImplicit false
set_option relaxedAutoImplicit false

namespace XmlRecords.Number

/-- A decimal: `digits * 10 ^ exponent`. -/
structure Decimal where
  digits : Nat
  exponent : Int
  deriving DecidableEq, Repr

namespace Decimal

/-- The count of decimal digits of a number, one for zero. -/
def digitCount (n : Nat) : Nat := if h : n < 10 then 1 else digitCount (n / 10) + 1
termination_by n
decreasing_by omega

/-- Drops up to `limit` zeros at the end of the digits. -/
def dropZeros : (limit : Nat) → Decimal → Decimal
  | 0, d => d
  | limit + 1, d =>
    if d.digits % 10 = 0 ∧ d.digits ≠ 0 then dropZeros limit ⟨d.digits / 10, d.exponent + 1⟩ else d

/-- The greatest `e` with `10 ^ e ≤ num / den`, for a positive fraction. -/
def leadingExponent (num den : Nat) : Int :=
  if den ≤ num then (digitCount (num / den) : Int) - 1
  else
    -- one over the fraction lies in `[10 ^ (k - 1), 10 ^ k)` where `k` counts its whole digits
    let k := digitCount (den / num)
    if den ≤ num * Nat.pow 10 (k - 1) then -((k : Int) - 1) else -(k : Int)

/-- The multiples of `10 ^ place` next to a fraction, the nearer first; of two equally near the even
one. -/
def neighbours (num den : Nat) (place : Int) : List Decimal :=
  let (n, d) :=
    if 0 ≤ place then (num, den * Nat.pow 10 place.toNat) else (num * Nat.pow 10 (-place).toNat, den)
  let below := n / d
  let r := n % d
  if r = 0 then [⟨below, place⟩]
  else if 2 * r < d ∨ (2 * r = d ∧ below % 2 = 0) then [⟨below, place⟩, ⟨below + 1, place⟩]
  else [⟨below + 1, place⟩, ⟨below, place⟩]

/-- The first decimal of `count`, `count + 1`, … digits that reads back as `x`. -/
def search (x : Binary64) (num den : Nat) (lead : Int) : (left count : Nat) → Option Decimal
  | 0, _ => none
  | left + 1, count =>
    match (neighbours num den (lead - count + 1)).find? fun d =>
        Binary64.ofDecimal false d.digits d.exponent == x with
    | some d => some d
    | none => search x num den lead left (count + 1)

end Decimal

/-- The shortest decimal that reads back as the magnitude `significand * 2 ^ exponent`. -/
def shortest (significand : Nat) (exponent : Int) : Decimal :=
  if significand = 0 then ⟨0, 0⟩
  else
    let (num, den) := Binary64.magnitude significand exponent
    match Decimal.search (.finite false significand exponent) num den
        (Decimal.leadingExponent num den) 17 1 with
    | some d => d.dropZeros 20
    | none => ⟨num / den, 0⟩

end XmlRecords.Number
