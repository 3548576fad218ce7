import XmlRecords.Text.Blank
import XmlRecords.Text.Capital

/-!
Identifiers derived from the names of a schema: field names for attributes and elements, class names
for types and enumerations, tags for the values of an enumeration, and the name of a schema's
module. An identifier is made of ASCII letters, digits and underscores, class names excepted, which
keep the characters of their parts.
-/

set_option autoImplicit false
set_option relaxedAutoImplicit false

namespace XmlRecords.Identifier

open XmlRecords.Text

/-- The words that no identifier may be, as generated modules are Python source. -/
def keywords : List String := [
  "False", "None", "True", "and", "as", "assert", "async", "await", "break", "class", "continue",
  "def", "del", "elif", "else", "except", "finally", "for", "from", "global", "if", "import", "in",
  "is", "lambda", "nonlocal", "not", "or", "pass", "raise", "return", "try", "while", "with",
  "yield"]

/-- The methods of every record, which no field may hide. -/
def recordMethods : List String := ["read", "write", "empty"]

def isWordChar (c : Char) : Bool := c.isAlphanum || c == '_'

/-- Puts an underscore wherever a capital letter follows a small letter or a digit. -/
def splitCamel : List Char → List Char
  | a :: b :: rest =>
    if (a.isLower || a.isDigit) && b.isUpper then a :: '_' :: splitCamel (b :: rest)
    else a :: splitCamel (b :: rest)
  | cs => cs

def replaceForeign (cs : List Char) : List Char := cs.map fun c => if isWordChar c then c else '_'

def startsWithDigit : List Char → Bool
  | c :: _ => c.isDigit
  | [] => false

/-- The field name of an attribute or element, in words divided by underscores. -/
def field (name : String) : String :=
  let lower := (replaceForeign (splitCamel name.toList)).map Char.toLower
  let started := if lower.isEmpty || startsWithDigit lower then '_' :: lower else lower
  let word := String.ofList started
  if keywords.contains word || recordMethods.contains word then word ++ "_" else word

def isClassDivider (c : Char) : Bool := c == '.' || c == '-' || c == '_' || isBlank c

/-- The longest pieces of a text without a divider, empty ones left out. -/
def pieces (isDivider : Char → Bool) (cs : List Char) : List (List Char) :=
  (cs.splitOnP isDivider).filter (!·.isEmpty)

def capitalized : List Char → List Char
  | [] => []
  | c :: rest => capital c ++ rest

/-- The class name of a type: the parts of its dotted name, each capitalized, joined. -/
def recordClass (name : String) : String :=
  String.ofList ((pieces isClassDivider name.toList).flatMap capitalized)

/-- The tag of an enumeration value. One that would begin and end with underscores gets an `x`. -/
def tag (value : String) : String :=
  let body := replaceForeign value.toList
  let started :=
    if body.isEmpty || startsWithDigit body || keywords.contains (String.ofList body) then
      '_' :: body
    else body
  if started.head? = some '_' ∧ started.getLast? = some '_' ∧ 1 < started.length then
    String.ofList (started ++ ['x'])
  else String.ofList started

def bare (name : String) : List Char := trimBoth (· == '_') (field name).toList

/-- The module name of a schema; a name of underscores alone gives `schema`. -/
def module (name : String) : String :=
  if (bare name).isEmpty then "schema" else String.ofList (bare name)

end XmlRecords.Identifier
