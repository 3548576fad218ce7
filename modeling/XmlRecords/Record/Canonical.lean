import XmlRecords.Codec
import XmlRecords.Fault
import XmlRecords.Xml.Escape

/-!
The canonical text of a record: attributes, then child elements, both as declared, four blanks of
indentation a level, and every element closed on a line of its own.
-/

set_option autoImplicit false
set_option relaxedAutoImplicit false

namespace XmlRecords

open Xml

def Slot.written (slot : Slot) (value : Value) : Except Fault (List Value) :=
  match slot.occurrence, value with
  | .repeated, value => ofCodec (Codec.itemsOf value)
  | .optional, .absent => .ok []
  | _, value => .ok [value]

def Slot.writeAttribute (slot : Slot) (value : Value) : Except Fault String := do
  let values ← slot.written value
  let texts ← values.mapM fun value =>
    match slot.codec with
    | some codec => ofCodec (codec.write value)
    | none => .error .noSuchMember
  return String.join (texts.map (attributeText slot.xmlName))

def writeAttributes : List Slot → List Value → Except Fault String
  | slot :: slots, value :: values => do
    if slot.isAttribute then
      let text ← slot.writeAttribute value
      return text ++ (← writeAttributes slots values)
    else writeAttributes slots values
  | _, _ => .ok ""

namespace Value

/-- One element of a field with a codec; what has none is no simple value. -/
def writeSimple (depth : Int) (slot : Slot) (value : Value) : Except Fault String :=
  match slot.codec with
  | some codec => do
    return textElement slot.xmlName (← ofCodec (codec.write value)) depth
  | none => .error .noSuchMember

mutual
/-- A record as an element of a name. A field called `write` hides the operation. -/
def writeElement (name : String) (depth : Int) : Value → Except Fault String
  | .record layout values => do
    if layout.slots.any (·.name == "write") then throw .wrongKind
    let attributes ← writeAttributes layout.slots values
    let elements ← writeFields (depth + 1) layout.slots values
    return indent depth ++ "<" ++ name ++ attributes ++ ">\n" ++ elements ++
      indent depth ++ "</" ++ name ++ ">\n"
  | _ => .error .noSuchMember

def writeFields (depth : Int) : List Slot → List Value → Except Fault String
  | slot :: slots, value :: values => do
    if slot.isAttribute then writeFields depth slots values
    else
      let text ← writeField depth slot value
      return text ++ (← writeFields depth slots values)
  | _, _ => .ok ""

def writeField (depth : Int) (slot : Slot) : Value → Except Fault String
  | .list items =>
    match slot.occurrence with
    | .repeated => writeItems depth slot items
    | _ => writeSimple depth slot (.list items)
  | .absent =>
    match slot.occurrence with
    | .optional => .ok ""
    | .repeated => .error .wrongKind
    | .once => writeSimple depth slot .absent
  | .text s =>
    match slot.occurrence with
    | .repeated => do
      let texts ← s.toList.mapM fun c => writeSimple depth slot (.text (String.singleton c))
      return String.join texts
    | _ => writeSimple depth slot (.text s)
  | value =>
    match slot.occurrence with
    | .repeated => .error .wrongKind
    | _ => writeItem depth slot value

def writeItems (depth : Int) (slot : Slot) : List Value → Except Fault String
  | [] => .ok ""
  | item :: items => do
    let text ← writeItem depth slot item
    return text ++ (← writeItems depth slot items)

def writeItem (depth : Int) (slot : Slot) (value : Value) : Except Fault String :=
  match slot.codec with
  | none => writeElement slot.xmlName depth value
  | some _ => writeSimple depth slot value
end

def writeDocument (root : String) (value : Value) : Except Fault String := do
  return declaration ++ (← value.writeElement root 0)

end Value

end XmlRecords
