import XmlRecords.Xml.Token

/-!
The XML declaration at the start of a document or external entity.
-/

set_option autoImplicit false
set_option relaxedAutoImplicit false

namespace XmlRecords.Xml

structure Declaration where
  version : Option String
  encoding : Option String
  standalone : Option Bool
  deriving DecidableEq, Repr

/-- A name with a quoted value after blanks, if the name comes next. The value is checked. -/
def takeSetting? (name : String) (isValue : List Char → Bool) (cs : List Char) :
    Option (Option String × List Char) :=
  match (skipBlanks? cs).bind (dropText? name) with
  | none => some (none, cs)
  | some rest => do
    let (value, rest) ← takeQuoted? (← takeEquals? rest)
    if isValue value then some (some (String.ofList value), rest) else none

def isVersion : List Char → Bool
  | '1' :: '.' :: digits => digits.all Char.isDigit
  | _ => false

def isEncodingName : List Char → Bool
  | [] => false
  | c :: cs => c.isAlpha && cs.all fun c => c.isAlphanum || c == '.' || c == '_' || c == '-'

def isYesOrNo (cs : List Char) : Bool := cs == ['y', 'e', 's'] || cs == ['n', 'o']

/-- Takes the declaration off the start, if there is one: `<?xml` and a blank. -/
def takeDeclaration? (cs : List Char) : Option (Option Declaration × List Char) :=
  match dropText? "<?xml" cs with
  | none => some (none, cs)
  | some rest =>
    if (skipBlanks? rest).isNone then some (none, cs)
    else do
      let (version, rest) ← takeSetting? "version" isVersion rest
      let (encoding, rest) ← takeSetting? "encoding" isEncodingName rest
      let (standalone, rest) ← takeSetting? "standalone" isYesOrNo rest
      let rest ← dropText? "?>" (skipBlanks rest)
      some (some ⟨version, encoding, standalone.map (· == "yes")⟩, rest)

/-- Takes the declaration of a document off the start; one without a version is refused. -/
def takeDocumentDeclaration? (cs : List Char) : Option (Option Declaration × List Char) := do
  let (declaration, rest) ← takeDeclaration? cs
  match declaration with
  | some d => if d.version.isSome then some (some d, rest) else none
  | none => some (none, rest)

end XmlRecords.Xml
