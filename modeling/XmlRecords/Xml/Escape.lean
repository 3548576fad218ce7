/-!
Escaping of text in documents: markup characters become references, and in attribute values also
the quote and the blanks that would not survive attribute value normalization.
-/

set_option autoImplicit false
set_option relaxedAutoImplicit false

namespace XmlRecords.Xml

def escapedInContent (c : Char) : List Char :=
  match c with
  | '&' => ['&', 'a', 'm', 'p', ';']
  | '<' => ['&', 'l', 't', ';']
  | '>' => ['&', 'g', 't', ';']
  | c => [c]

def escapedInAttribute (c : Char) : List Char :=
  match c with
  | '"' => ['&', 'q', 'u', 'o', 't', ';']
  | '\t' => ['&', '#', '9', ';']
  | '\n' => ['&', '#', '1', '0', ';']
  | '\r' => ['&', '#', '1', '3', ';']
  | c => escapedInContent c

def escapeContent (s : String) : String := String.ofList (s.toList.flatMap escapedInContent)

def escapeAttribute (s : String) : String := String.ofList (s.toList.flatMap escapedInAttribute)

/-- The blanks in front of a line of an element at a depth; a negative depth counts as zero. -/
def indent (depth : Int) : String := String.ofList (List.replicate (4 * depth.toNat) ' ')

def attributeText (name value : String) : String :=
  " " ++ name ++ "=\"" ++ escapeAttribute value ++ "\""

/-- An element with text content, on a line of its own. -/
def textElement (name content : String) (depth : Int) : String :=
  indent depth ++ "<" ++ name ++ ">" ++ escapeContent content ++ "</" ++ name ++ ">\n"

def declaration : String := "<?xml version=\"1.0\" encoding=\"utf-8\"?>\n"

end XmlRecords.Xml
