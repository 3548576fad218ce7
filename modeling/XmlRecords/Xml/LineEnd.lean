/-!
Line ends: a carriage return, alone or before a line feed, is read as a line feed.
-/

set_option autoImplicit false
set_option relaxedAutoImplicit false

namespace XmlRecords.Xml

/-- Reads line ends; `afterReturn` tells that a carriage return was just read as a line feed. -/
def normalizeLines : (afterReturn : Bool) → List Char → List Char
  | _, [] => []
  | afterReturn, c :: cs =>
    if c = '\r' then '\n' :: normalizeLines true cs
    else if c = '\n' ∧ afterReturn then normalizeLines false cs
    else c :: normalizeLines false cs

end XmlRecords.Xml
