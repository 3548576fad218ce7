import XmlRecords.Value

/-!
Values shown as text, as the text codec writes values that are not texts, and their truth.
-/

set_option autoImplicit false
set_option relaxedAutoImplicit false

namespace XmlRecords.Value

open Number

/-- Holds of the values that count as yes: numbers but zero, texts and lists but the empty ones. -/
def isTruthy : Value → Bool
  | .absent => false
  | .boolean b => b
  | .integer n => n != 0
  | .real x => !x.isZero
  | .text s => !s.isEmpty
  | .tag _ t => t.number != 0
  | .list items => !items.isEmpty
  | .record .. => true

/-- Items between parentheses; a single one is followed by a comma. -/
def parenthesized : List String → String
  | [item] => "(" ++ item ++ ",)"
  | items => "(" ++ ", ".intercalate items ++ ")"

mutual
/-- A value shown inside another: texts are quoted, tags show their number. -/
def quotedForm : Value → Except CodecFault String
  | .absent => .ok "None"
  | .boolean b => .ok (if b then "True" else "False")
  | .integer n => .ok (toString n)
  | .real x => .ok x.text
  | .text s => .ok (Text.quoted s)
  | .tag e t => .ok (s!"<{e.name}." ++ t.name ++ s!": {t.number}>")
  | .list items => (quotedForms items).map parenthesized
  | .record layout values =>
    (quotedFields (layout.slots.map (·.name)) values).map fun fields =>
      layout.className ++ "(" ++ ", ".intercalate fields ++ ")"

def quotedForms : List Value → Except CodecFault (List String)
  | [] => .ok []
  | value :: values => do return (← quotedForm value) :: (← quotedForms values)

def quotedFields : List String → List Value → Except CodecFault (List String)
  | name :: names, value :: values => do
    return (name ++ "=" ++ (← quotedForm value)) :: (← quotedFields names values)
  | _, _ => .ok []
end

/-- A value shown by itself: a text is its own form, a tag shows the text it stands for. -/
def shown : Value → Except CodecFault String
  | .text s => .ok s
  | .tag e t => e.toText t
  | value => value.quotedForm

end XmlRecords.Value
