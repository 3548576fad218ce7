/-!
How often a field occurs under its parent.
-/

set_option autoImplicit false
set_option relaxedAutoImplicit false

namespace XmlRecords

inductive Occurrence where
  | once
  | optional
  | repeated
  deriving DecidableEq, Inhabited, Repr

namespace Occurrence

/-- The occurrence given by a least and a greatest count; a greatest count of -1 sets no bound. -/
def ofBounds (least greatest : Int) : Occurrence :=
  if greatest = -1 ∨ 1 < greatest then .repeated
  else if least = 0 then .optional
  else .once

def label : Occurrence → String
  | .once => "exactly-one"
  | .optional => "zero-or-one"
  | .repeated => "zero-or-more"

end Occurrence

end XmlRecords
