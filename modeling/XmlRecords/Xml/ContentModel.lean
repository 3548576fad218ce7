import XmlRecords.Xml.Token

/-!
The content models of element declarations. Only their form is checked, as nothing is validated.
-/

set_option autoImplicit false
set_option relaxedAutoImplicit false

namespace XmlRecords.Xml

/-- Takes a sign of repetition off the start, if there is one. -/
def dropRepetition : List Char → List Char
  | '?' :: rest => rest
  | '*' :: rest => rest
  | '+' :: rest => rest
  | cs => cs

/-- The names of mixed content after its first word, up to the closing sign. -/
def takeMixed? : (fuel : Nat) → (named : Bool) → List Char → Option (List Char)
  | 0, _, _ => none
  | fuel + 1, named, cs =>
    match skipBlanks cs with
    | ')' :: '*' :: rest => some rest
    | ')' :: rest => if named then none else some rest
    | '|' :: rest => do
      let (_, rest) ← takeName? (skipBlanks rest)
      takeMixed? fuel true rest
    | _ => none

mutual
/-- A particle: a name or a group, with a sign of repetition. -/
def takeParticle? : (fuel : Nat) → List Char → Option (List Char)
  | 0, _ => none
  | fuel + 1, cs =>
    match cs with
    | '(' :: rest => (takeGroup? fuel none (skipBlanks rest)).map dropRepetition
    | cs => (takeName? cs).map fun (_, rest) => dropRepetition rest

/-- The particles of a group up to its closing sign; one divider is used throughout. -/
def takeGroup? : (fuel : Nat) → (divider : Option Char) → List Char → Option (List Char)
  | 0, _, _ => none
  | fuel + 1, divider, cs => do
    let rest ← takeParticle? fuel cs
    match skipBlanks rest with
    | ')' :: rest => some rest
    | c :: rest =>
      if (c = ',' ∨ c = '|') ∧ (divider = none ∨ divider = some c) then
        takeGroup? fuel (some c) (skipBlanks rest)
      else none
    | [] => none
end

def takeContentModel? (cs : List Char) : Option (List Char) :=
  match dropText? "EMPTY" cs, dropText? "ANY" cs, cs with
  | some rest, _, _ => some rest
  | _, some rest, _ => some rest
  | _, _, '(' :: rest =>
    match dropText? "#PCDATA" (skipBlanks rest) with
    | some rest => takeMixed? (rest.length + 1) false rest
    | none => takeParticle? (cs.length + 2) cs
  | _, _, _ => none

end XmlRecords.Xml
