import XmlRecords.Xml.Token

/-!
Content as trees before names are resolved and entities expanded. Tokens are assembled with the
elements that are open kept on a stack.
-/

set_option autoImplicit false
set_option relaxedAutoImplicit false

namespace XmlRecords.Xml

inductive Raw where
  | element (name : String) (attributes : List (String × List Piece)) (children : List Raw)
  | characters (pieces : List Piece)
  | cdata (s : String)
  | comment (s : String)
  | instruction (target data : String)
  deriving Inhabited, Repr

/-- An open element, with the siblings before it, last first. -/
structure Frame where
  name : String
  attributes : List (String × List Piece)
  before : List Raw

/-- Builds trees from tokens. `siblings` holds the trees read inside the innermost open element,
last first; every element has to be closed by its own name. -/
def assemble? : (frames : List Frame) → (siblings : List Raw) → List Token → Option (List Raw)
  | [], siblings, [] => some siblings.reverse
  | _ :: _, _, [] => none
  | frames, siblings, .opening name attributes true :: tokens =>
    assemble? frames (.element name attributes [] :: siblings) tokens
  | frames, siblings, .opening name attributes false :: tokens =>
    assemble? (⟨name, attributes, siblings⟩ :: frames) [] tokens
  | [], _, .closing _ :: _ => none
  | frame :: frames, siblings, .closing name :: tokens =>
    if name = frame.name then
      assemble? frames (.element name frame.attributes siblings.reverse :: frame.before) tokens
    else none
  | frames, siblings, .characters pieces :: tokens =>
    assemble? frames (.characters pieces :: siblings) tokens
  | frames, siblings, .cdata s :: tokens => assemble? frames (.cdata s :: siblings) tokens
  | frames, siblings, .comment s :: tokens => assemble? frames (.comment s :: siblings) tokens
  | frames, siblings, .instruction target data :: tokens =>
    assemble? frames (.instruction target data :: siblings) tokens

def content? (cs : List Char) : Option (List Raw) := (tokens? cs).bind (assemble? [] [])

namespace Raw

/-- Holds of what may stand beside the root element: comments, instructions and blanks. -/
def isMisc : Raw → Bool
  | .comment _ => true
  | .instruction .. => true
  | .characters pieces =>
    pieces.all fun
      | .literal c => Text.isXmlBlank c
      | _ => false
  | _ => false

/-- The root element of a document's content, if it is the only one and no text is beside it. -/
def root? (content : List Raw) : Option Raw :=
  match content.filter (!·.isMisc) with
  | [.element name attributes children] => some (.element name attributes children)
  | _ => none

end Raw

end XmlRecords.Xml
