import XmlRecords.Xml.ContentModel
import XmlRecords.Xml.Entity

/-!
Document type declarations: the declarations of entities and attributes are kept, those of elements
and notations only checked for their form.
-/

set_option autoImplicit false
set_option relaxedAutoImplicit false

namespace XmlRecords.Xml

/-- What reading declarations depends on: the place of the document, whether entities are expanded,
and how an external entity is fetched from a place. -/
structure Surroundings where
  base : Option String
  expand : Bool
  fetch : String → Option (List Char)

def Surroundings.undeclared (s : Surroundings) : Undeclared :=
  if s.expand then .refused else .dropped

/-- The replacement text of an entity: character references are replaced, references to entities
kept as they are. A percent sign is refused. -/
def replacementText? (body : List Char) : Option (List Char) := do
  if body.contains '%' then none
  -- the predefined entities are kept too, so their pieces are told apart from character references
  let rec walk : (reading : Option (List Char)) → List Char → Option (List Char)
    | none, [] => some []
    | some _, [] => none
    | none, c :: cs => if c = '&' then walk (some []) cs else (walk none cs).map (c :: ·)
    | some read, c :: cs =>
      if c = ';' then
        match reference? read.reverse, read.reverse with
        | some (.character c), '#' :: _ => (walk none cs).map (c :: ·)
        | some _, name => (walk none cs).map (('&' :: name ++ [';']) ++ ·)
        | none, _ => none
      else walk (some (c :: read)) cs
  walk none body

def isPublicChar (c : Char) : Bool :=
  c.isAlphanum || " \n\r-'()+,./:=?;!*#@$_%".contains c

/-- An external identifier: the system reference, if it has one. A notation may lack it. -/
def takeExternalId? (needsSystem : Bool) (cs : List Char) :
    Option (Option String × List Char) :=
  match dropText? "SYSTEM" cs, dropText? "PUBLIC" cs with
  | some rest, _ => do
    let (reference, rest) ← takeQuoted? (← skipBlanks? rest)
    some (some (String.ofList reference), rest)
  | _, some rest => do
    let (public_, rest) ← takeQuoted? (← skipBlanks? rest)
    if !public_.all isPublicChar then none
    else
      match (skipBlanks? rest).bind takeQuoted? with
      | some (reference, rest) => some (some (String.ofList reference), rest)
      | none => if needsSystem then none else some (none, rest)
  | none, none => none

def closeDeclaration? (cs : List Char) : Option (List Char) := dropText? ">" (skipBlanks cs)

def takeEntityDecl? (s : Surroundings) (d : Declarations) (cs : List Char) :
    Option (Declarations × List Char) := do
  let cs ← skipBlanks? cs
  let (isParameter, cs) ← match cs with
    | '%' :: rest => (skipBlanks? rest).map (true, ·)
    | _ => some (false, cs)
  let (name, cs) ← takeName? cs
  if name.toList.contains ':' then none
  let cs ← skipBlanks? cs
  match takeQuoted? cs with
  | some (body, rest) =>
    let text ← replacementText? body
    let rest ← closeDeclaration? rest
    some (d.addEntity isParameter name (.internal text), rest)
  | none =>
    let (reference, rest) ← takeExternalId? true cs
    match (skipBlanks? rest).bind (dropText? "NDATA") with
    | some rest =>
      if isParameter then none
      else
        let (_, rest) ← takeName? (← skipBlanks? rest)
        let rest ← closeDeclaration? rest
        some (d.addEntity false name .unparsed, rest)
    | none =>
      let rest ← closeDeclaration? rest
      some (d.addEntity isParameter name (.external s.base (reference.getD "")), rest)

def takeChoices? (word : List Char → Option (List Char)) :
    (fuel : Nat) → List Char → Option (List Char)
  | 0, _ => none
  | fuel + 1, cs => do
    let rest ← word (skipBlanks cs)
    match skipBlanks rest with
    | ')' :: rest => some rest
    | '|' :: rest => takeChoices? word fuel rest
    | _ => none

def takeNameToken? (cs : List Char) : Option (List Char) :=
  let word := cs.takeWhile isNameChar
  if word.isEmpty then none else some (cs.drop word.length)

/-- The keywords of attribute types other than text, longer ones first. -/
def typeKeywords : List String :=
  ["IDREFS", "IDREF", "ID", "ENTITIES", "ENTITY", "NMTOKENS", "NMTOKEN"]

def takeAttributeType? (cs : List Char) : Option (Bool × List Char) :=
  match dropText? "CDATA" cs, typeKeywords.findSome? (dropText? · cs), cs with
  | some rest, _, _ => some (true, rest)
  | _, some rest, _ => some (false, rest)
  | _, _, '(' :: rest => (takeChoices? takeNameToken? (rest.length + 1) rest).map (false, ·)
  | _, _, _ => do
    let rest ← skipBlanks? (← dropText? "NOTATION" cs)
    match rest with
    | '(' :: rest =>
      (takeChoices? (fun cs => (takeName? cs).map (·.2)) (rest.length + 1) rest).map (false, ·)
    | _ => none

def takeDefault? (s : Surroundings) (d : Declarations) (isText : Bool) (cs : List Char) :
    Option (Option String × List Char) :=
  match dropText? "#REQUIRED" cs, dropText? "#IMPLIED" cs with
  | some rest, _ => some (none, rest)
  | _, some rest => some (none, rest)
  | _, _ => do
    let cs ← match dropText? "#FIXED" cs with
      | some rest => skipBlanks? rest
      | none => some cs
    let (pieces, rest) ← takeValue? cs
    let value ← expandValue? d s.undeclared d.depth pieces
    some (some (AttributeDecl.normalize isText value), rest)

def takeAttributeDecls? (s : Surroundings) (element : String) :
    (fuel : Nat) → Declarations → List Char → Option (Declarations × List Char)
  | 0, _, _ => none
  | fuel + 1, d, cs =>
    match closeDeclaration? cs with
    | some rest => some (d, rest)
    | none => do
      let (name, rest) ← takeName? (← skipBlanks? cs)
      let (isText, rest) ← takeAttributeType? (← skipBlanks? rest)
      let (default, rest) ← takeDefault? s d isText (← skipBlanks? rest)
      takeAttributeDecls? s element fuel (d.addAttribute ⟨element, name, isText, default⟩) rest

def takeElementDecl? (cs : List Char) : Option (List Char) := do
  let (_, rest) ← takeName? (← skipBlanks? cs)
  closeDeclaration? (← takeContentModel? (← skipBlanks? rest))

def takeNotationDecl? (cs : List Char) : Option (List Char) := do
  let (name, rest) ← takeName? (← skipBlanks? cs)
  if name.toList.contains ':' then none
  let (_, rest) ← takeExternalId? false (← skipBlanks? rest)
  closeDeclaration? rest

/-- One declaration, comment or instruction, given what follows its `<`. -/
def takeDecl? (s : Surroundings) (d : Declarations) (cs : List Char) :
    Option (Declarations × List Char) :=
  match cs with
  | '!' :: '-' :: '-' :: rest => (takeComment? rest).map fun (_, rest) => (d, rest)
  | '?' :: rest => (takeInstruction? rest).map fun (_, _, rest) => (d, rest)
  | _ =>
    match dropText? "!ENTITY" cs, dropText? "!ATTLIST" cs, dropText? "!ELEMENT" cs,
        dropText? "!NOTATION" cs with
    | some rest, _, _, _ => takeEntityDecl? s d rest
    | _, some rest, _, _ => do
      let (element, rest) ← takeName? (← skipBlanks? rest)
      takeAttributeDecls? s element (rest.length + 1) d rest
    | _, _, some rest, _ => (takeElementDecl? rest).map (d, ·)
    | _, _, _, some rest => (takeNotationDecl? rest).map (d, ·)
    | _, _, _, _ => none

/-- Reads declarations up to a closing bracket, or to the end of a parameter entity's text, where
`nesting` bounds how deep parameter entities may lie in one another. -/
def takeDecls? (s : Surroundings) : (nesting : Nat) → (inEntity : Bool) → (fuel : Nat) →
    Declarations → List Char → Option (Declarations × List Char)
  | _, _, 0, _, _ => none
  | nesting, inEntity, fuel + 1, d, cs =>
    match skipBlanks cs with
    | [] => if inEntity then some (d, []) else none
    | ']' :: rest => if inEntity then none else some (d, rest)
    | '<' :: rest => do
      let (d, rest) ← takeDecl? s d rest
      takeDecls? s nesting inEntity fuel d rest
    | '%' :: rest => do
      let (name, rest) ← takeName? rest
      let rest ← dropText? ";" rest
      let d := { d with hasParameterReferences := true }
      let d ← match nesting with
        | 0 => none
        | nesting + 1 =>
          match d.parameter? name with
          | some (.internal text) =>
            (takeDecls? s nesting true (text.length + 1) d text).map (·.1)
          | some (.external base reference) =>
            if s.expand then
              let place := Location.resolve base reference
              match s.fetch place with
              | some text =>
                if text.all isXmlChar then
                  (takeDecls? { s with base := some place } nesting true (text.length + 1) d
                    text).map (·.1)
                else none
              | none => some d
            else some d
          | some .unparsed => none
          | none => if s.expand then none else some d
      takeDecls? s nesting inEntity fuel d rest
    | _ => none
termination_by nesting _ fuel => (nesting, fuel)

def parameterNesting : Nat := 40

/-- A document type declaration after its keyword. The external subset is not read. -/
def takeDocumentType? (s : Surroundings) (cs : List Char) :
    Option (Declarations × List Char) := do
  let (_, rest) ← takeName? (← skipBlanks? cs)
  let (hasExternalSubset, rest) ← match (skipBlanks? rest).bind (takeExternalId? true) with
    | some (_, rest) => some (true, rest)
    | none => some (false, rest)
  let d := { Declarations.empty with hasExternalSubset }
  match skipBlanks rest with
  | '>' :: rest => some (d, rest)
  | '[' :: rest =>
    let (d, rest) ← takeDecls? s parameterNesting false (rest.length + 1) d rest
    let rest ← closeDeclaration? rest
    some (d, rest)
  | _ => none

end XmlRecords.Xml
