/-!
Messages with markup. A tag between brackets sets the look of the text up to its closing tag and is
not shown itself; a backslash before a bracket takes that meaning away.
-/

set_option autoImplicit false
set_option relaxedAutoImplicit false

namespace XmlRecords.Markup

def startsTag (c : Char) : Bool := c.isLower || c == '#' || c == '/' || c == '@'

/-- The text of the tag that stands at the start, and what follows it. -/
def takeTag? (cs : List Char) : Option (List Char × List Char) :=
  match cs with
  | '[' :: c :: rest =>
    if !startsTag c then none
    else
      let inside := rest.takeWhile fun c => c != '[' && c != ']'
      match rest.drop inside.length with
      | ']' :: after => some (c :: inside, after)
      | _ => none
  | _ => none

/-- The look that a tag names, whatever its parameters are. -/
def look (tag : List Char) : List Char :=
  let name := (tag.takeWhile (· != '=')).dropWhile (· == ' ')
  ((name.reverse.dropWhile (· == ' ')).reverse).map Char.toLower

/-- The looks that stay open after a tag, the last one opened first; a closing tag needs an open
one. -/
def openAfter? (looks : List (List Char)) (tag : List Char) : Option (List (List Char)) :=
  match tag with
  | '/' :: name =>
    let closed := look name
    if closed.isEmpty then (if looks.isEmpty then none else some looks.tail)
    else if looks.contains closed then some (looks.erase closed)
    else none
  | tag => some (look tag :: looks)

/-- The characters shown; `slashes` counts the backslashes right before. -/
def shownFrom? : (fuel : Nat) → (looks : List (List Char)) → (slashes : Nat) → List Char →
    Option (List Char)
  | 0, _, slashes, _ => some (List.replicate slashes '\\')
  | _ + 1, _, slashes, [] => some (List.replicate slashes '\\')
  | fuel + 1, looks, slashes, c :: cs =>
    if c = '\\' then shownFrom? fuel looks (slashes + 1) cs
    else
      match takeTag? (c :: cs) with
      | some (tag, rest) =>
        let before := List.replicate (slashes / 2) '\\'
        if slashes % 2 = 1 then
          (shownFrom? fuel looks 0 rest).map fun shown => before ++ '[' :: tag ++ ']' :: shown
        else
          match openAfter? looks tag with
          | some looks => (shownFrom? fuel looks 0 rest).map (before ++ ·)
          | none => none
      | none =>
        let kept := if c = '[' then slashes - 1 else slashes
        (shownFrom? fuel looks 0 cs).map fun shown => List.replicate kept '\\' ++ c :: shown

def isControl (c : Char) : Bool :=
  c == '\x07' || c == '\x08' || c == '\x0b' || c == '\x0c' || c == '\r'

/-- Fills up to the next stop, eight columns apart, for each tab. -/
def expandTabs : (column : Nat) → List Char → List Char
  | _, [] => []
  | column, c :: cs =>
    if c = '\t' then List.replicate (8 - column % 8) ' ' ++ expandTabs (column + (8 - column % 8)) cs
    else if c = '\n' then c :: expandTabs 0 cs
    else c :: expandTabs (column + 1) cs

/-- The text of a message as it is shown, none if a closing tag closes nothing. -/
def shown? (message : String) : Option String :=
  (shownFrom? (message.length + 1) [] 0 message.toList).map fun cs =>
    String.ofList (expandTabs 0 (cs.filter (!isControl ·)))

end XmlRecords.Markup
