import XmlRecords.Number.NumberText
import XmlRecords.Text.Literal

/-!
JSON values, with integers of any size and the members of an object in the order they were given.
-/

set_option autoImplicit false
set_option relaxedAutoImplicit false

namespace XmlRecords

open Number

inductive Json where
  | null
  | boolean (b : Bool)
  | integer (n : Int)
  | real (x : Binary64)
  | text (s : String)
  | array (items : List Json)
  | object (members : List (String × Json))
  deriving Inhabited, Repr

namespace Json

def numeric? : Json → Option (Int ⊕ Binary64)
  | .boolean b => some (.inl (if b then 1 else 0))
  | .integer n => some (.inl n)
  | .real x =>
    match x.toInt? with
    | some n => some (.inl n)
    | none => some (.inr x)
  | _ => none

def sameNumber : Int ⊕ Binary64 → Int ⊕ Binary64 → Bool
  | .inl m, .inl n => m == n
  | .inr x, .inr y => x.same y
  | _, _ => false

def isFalsy : Json → Bool
  | .null => true
  | .boolean b => !b
  | .integer n => n == 0
  | .real x => x.isZero
  | .text s => s.isEmpty
  | .array items => items.isEmpty
  | .object members => members.isEmpty

mutual
/-- Equality of values: numbers and truth values are equal when they stand for the same number, and
objects when they have equal members in whatever order. -/
def same : Json → Json → Bool
  | .null, .null => true
  | .text s, .text t => s == t
  | .array items, .array others => sameItems items others
  | .object members, .object others =>
    members.length == others.length && sameMembers members others
  | .boolean b, other => sameAsNumber (some (.inl (if b then 1 else 0))) other
  | .integer n, other => sameAsNumber (some (.inl n)) other
  | .real x, other => sameAsNumber (numeric? (.real x)) other
  | _, _ => false

def sameAsNumber (number : Option (Int ⊕ Binary64)) (other : Json) : Bool :=
  match number, other.numeric? with
  | some x, some y => sameNumber x y
  | _, _ => false

def sameItems : List Json → List Json → Bool
  | [], [] => true
  | item :: items, other :: others => same item other && sameItems items others
  | _, _ => false

def sameMembers : List (String × Json) → List (String × Json) → Bool
  | [], _ => true
  | (key, value) :: members, others =>
    (match others.find? (·.1 == key) with
      | some (_, other) => same value other
      | none => false) && sameMembers members others
end

mutual
def quotedForm : Json → String
  | .null => "None"
  | .boolean b => if b then "True" else "False"
  | .integer n => toString n
  | .real x => x.text
  | .text s => Text.quoted s
  | .array items => "[" ++ ", ".intercalate (quotedItems items) ++ "]"
  | .object members => "\x7b" ++ ", ".intercalate (quotedMembers members) ++ "\x7d"

def quotedItems : List Json → List String
  | [] => []
  | item :: items => quotedForm item :: quotedItems items

def quotedMembers : List (String × Json) → List String
  | [] => []
  | (key, value) :: members => (Text.quoted key ++ ": " ++ quotedForm value) :: quotedMembers members
end

def shown : Json → String
  | .text s => s
  | other => other.quotedForm

mutual
def print : Json → String
  | .null => "null"
  | .boolean b => if b then "true" else "false"
  | .integer n => toString n
  | .real .nan => "NaN"
  | .real (.infinity negative) => if negative then "-Infinity" else "Infinity"
  | .real x => x.text
  | .text s => Text.literal s
  | .array items => "[" ++ ", ".intercalate (printItems items) ++ "]"
  | .object members => "\x7b" ++ ", ".intercalate (printMembers members) ++ "\x7d"

def printItems : List Json → List String
  | [] => []
  | item :: items => print item :: printItems items

def printMembers : List (String × Json) → List String
  | [] => []
  | (key, value) :: members => (Text.literal key ++ ": " ++ print value) :: printMembers members
end

def member? (members : List (String × Json)) (key : String) : Option Json :=
  (members.find? (·.1 == key)).map (·.2)

/-- Gives a key a value: a key already there keeps its place. -/
def putMember (key : String) (value : Json) : List (String × Json) → List (String × Json)
  | [] => [(key, value)]
  | (k, v) :: members =>
    if k = key then (key, value) :: members else (k, v) :: putMember key value members

end Json

end XmlRecords
