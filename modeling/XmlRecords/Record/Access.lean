import XmlRecords.Record.FromElement

/-!
Access to the fields of a record by the accessors of its class, and making records by hand.
-/

set_option autoImplicit false
set_option relaxedAutoImplicit false

namespace XmlRecords

namespace Layout

/-- The accessor methods of a class; a later field takes over a name. -/
def accessors (layout : Layout) : List (String × Accessor × Slot) :=
  layout.slots.flatMap fun slot =>
    slot.toFieldKey.accessors.map fun (name, accessor) => (name, accessor, slot)

def accessor? (layout : Layout) (name : String) : Option (Accessor × Slot) :=
  (layout.accessors.reverse.find? (·.1 == name)).map (·.2)

def methodNames (layout : Layout) : List String :=
  ((layout.accessors.map (·.1)).eraseDups).mergeSort fun a b => decide (a ≤ b)

def valueOf? (layout : Layout) (values : List Value) (name : String) : Option Value :=
  ((layout.slots.zip values).find? fun (slot, _) => slot.name == name).map (·.2)

end Layout

namespace Value

/-- Holds if a value has items, for the values that have a length. -/
def hasItems : Value → Except Fault Bool
  | .list items => .ok !items.isEmpty
  | .text s => .ok !s.isEmpty
  | _ => .error .wrongKind

def firstItem (value : Value) : Except Fault Value :=
  if value.isTruthy then
    match value with
    | .list (item :: _) => .ok item
    | .text s => .ok (.text (String.ofList (s.toList.take 1)))
    | _ => .error .wrongKind
  else .ok .absent

def access (record : String) (slot : Slot) : Accessor → Value → Except Fault Value
  | .has, value =>
    match slot.occurrence with
    | .once => .ok (.boolean true)
    | .optional =>
      match value with
      | .absent => .ok (.boolean false)
      | _ => .ok (.boolean true)
    | .repeated => value.hasItems.map .boolean
  | .get, value =>
    match slot.occurrence, value with
    | .optional, .absent => .error (.notPresent record slot.name)
    | _, value => .ok value
  | .first, value => value.firstItem

/-- Calls a method of a record by its name. A field of that name hides the method. -/
def call (method : String) : Value → Except Fault Value
  | .record layout values =>
    if layout.slots.any (·.name == method) then .error .wrongKind
    else
      match layout.accessor? method with
      | none => .error .noSuchMember
      | some (accessor, slot) =>
        match layout.valueOf? values slot.name with
        | some value => access layout.name slot accessor value
        | none => .error .noSuchMember
  | _ => .error .noSuchMember

/-- The item at a position, counted from the end if it is negative. -/
def item (position : Int) (value : Value) : Except Fault Value := do
  let items ← ofCodec (Codec.itemsOf value)
  let index := if position < 0 then position + items.length else position
  if index < 0 then throw .outOfReach
  else
    match items[index.toNat]? with
    | some item => return item
    | none => throw .outOfReach

end Value

namespace RecordType

/-- The record with a value for each field, given by name in any order. A field that is optional to the
constructor because it hides a member has to be given all the same, since that member is no value. -/
def make (type : RecordType) (given : List (String × Value)) : Except Fault Value := do
  let names := type.fields.map (·.key.name)
  if given.any fun (name, _) => !names.contains name then throw .wrongKind
  let values ← names.mapM fun name =>
    match given.find? (·.1 == name) with
    | some (_, value) => .ok value
    | none => .error Fault.wrongKind
  type.construct values

def makeInOrder (type : RecordType) (given : List Value) : Except Fault Value :=
  if given.length = type.fields.length then type.construct given
  else .error .wrongKind

end RecordType

end XmlRecords
