/-!
White space. Three classes are in use: the blanks of Unicode, the blanks that may pad a number, and
the four blanks of XML.
-/

set_option autoImplicit false
set_option relaxedAutoImplicit false

namespace XmlRecords.Text

def isInformationSeparator (c : Char) : Bool := 0x1C ≤ c.toNat && c.toNat ≤ 0x1F

/-- Holds of the Unicode white space, information separators included. -/
def isBlank (c : Char) : Bool :=
  (0x9 ≤ c.toNat && c.toNat ≤ 0xD) || isInformationSeparator c || c == ' ' ||
    c.toNat == 0x85 || c.toNat == 0xA0 || c.toNat == 0x1680 ||
    (0x2000 ≤ c.toNat && c.toNat ≤ 0x200A) || c.toNat == 0x2028 || c.toNat == 0x2029 ||
    c.toNat == 0x202F || c.toNat == 0x205F || c.toNat == 0x3000

def isNumberPadding (c : Char) : Bool := isBlank c && !isInformationSeparator c

/-- Holds of the four blanks of XML: space, tab, carriage return and line feed. -/
def isXmlBlank (c : Char) : Bool := c == ' ' || c == '\t' || c == '\r' || c == '\n'

def trimBoth (inClass : Char → Bool) (cs : List Char) : List Char :=
  ((cs.dropWhile inClass).reverse.dropWhile inClass).reverse

end XmlRecords.Text
