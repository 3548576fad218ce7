import XmlRecords.Value

/-!
Equality of values. Numbers, truth values and tags are equal when they stand for the same number;
records are equal when they are of one class and hold equal values.
-/

set_option autoImplicit false
set_option relaxedAutoImplicit false

namespace XmlRecords.Value

open Number

/-- The number that a value stands for, exact if it is an integer. -/
def numeric? : Value → Option (Int ⊕ Binary64)
  | .boolean b => some (.inl (if b then 1 else 0))
  | .integer n => some (.inl n)
  | .tag _ t => some (.inl t.number)
  | .real x =>
    match x.toInt? with
    | some n => some (.inl n)
    | none => some (.inr x)
  | _ => none

def sameNumber (a b : Option (Int ⊕ Binary64)) : Bool :=
  match a, b with
  | some (.inl m), some (.inl n) => m == n
  | some (.inr x), some (.inr y) => x.same y
  | _, _ => false

mutual
def same : Value → Value → Bool
  | .absent, .absent => true
  | .text s, .text t => s == t
  | .list items, .list others => sameItems items others
  | .record layout values, .record other others =>
    layout.name == other.name && sameItems values others
  | a, b => sameNumber a.numeric? b.numeric?

def sameItems : List Value → List Value → Bool
  | [], [] => true
  | item :: items, other :: others => same item other && sameItems items others
  | _, _ => false
end

/-- A fingerprint: equal values have equal ones. -/
inductive Fingerprint where
  | absent
  | number (n : Int)
  | text (s : String)
  | sequence (prints : List Fingerprint)

mutual
def Fingerprint.same : Fingerprint → Fingerprint → Bool
  | .absent, .absent => true
  | .number m, .number n => m == n
  | .text s, .text t => s == t
  | .sequence prints, .sequence others => Fingerprint.sameItems prints others
  | _, _ => false

def Fingerprint.sameItems : List Fingerprint → List Fingerprint → Bool
  | [], [] => true
  | item :: items, other :: others => item.same other && Fingerprint.sameItems items others
  | _, _ => false
end

def modulus : Nat := Nat.pow 2 61 - 1

/-- A magnitude modulo the modulus, where 2 ^ 61 counts as 1. -/
def residue (significand : Nat) (exponent : Int) : Nat :=
  significand * Nat.pow 2 (exponent % 61).toNat % modulus

/-- The fingerprint of a number; -1 shares that of -2. -/
def numberPrint (negative : Bool) (magnitude : Nat) : Fingerprint :=
  let n : Int := if negative then -(magnitude : Int) else magnitude
  .number (if n = -1 then -2 else n)

def realPrint : Binary64 → Fingerprint
  | .nan => .text "nan"
  | .infinity negative => numberPrint negative 314159
  | .finite negative m q => numberPrint negative (residue m q)

mutual
def fingerprint : Value → Fingerprint
  | .absent => .absent
  | .boolean b => numberPrint false (if b then 1 else 0)
  | .integer n => numberPrint (n < 0) (n.natAbs % modulus)
  | .real x => realPrint x
  | .text s => if s.isEmpty then .number 0 else .text s
  | .tag _ t => numberPrint (t.number < 0) (t.number.natAbs % modulus)
  | .list items => .sequence (fingerprints items)
  | .record _ values => .sequence (fingerprints values)

def fingerprints : List Value → List Fingerprint
  | [] => []
  | value :: values => fingerprint value :: fingerprints values
end

end XmlRecords.Value
