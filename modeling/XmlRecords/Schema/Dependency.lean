import XmlRecords.Schema.Basic

/-!
The order in which complex types are bound: a type comes after every type that its elements refer
to. It is found by a depth-first walk, and a type that refers to itself through others is refused.
-/

set_option autoImplicit false
set_option relaxedAutoImplicit false

namespace XmlRecords.Schema

/-- The names of the types on a cycle: those entered from `id` on, then `id` again. -/
def cycleNames (s : Schema) (active : List TypeId) (id : TypeId) : List Label :=
  ((active.dropWhile (· != id)) ++ [id]).map fun i => ((s.type? i).map (·.qualifiedName)).getD .null

/-- Puts a type after the types it refers to, unless it is there already. `active` holds the types
entered and not yet left, the outermost first; they are distinct, so their count bounds the fuel. -/
def visit (s : Schema) :
    (fuel : Nat) → (active ordered : List TypeId) → TypeId → Except Fault (List TypeId)
  | 0, active, _, id => .error (.located (.cycle (s.cycleNames active id)) s.name)
  | fuel + 1, active, ordered, id =>
    if ordered.contains id then .ok ordered
    else if active.contains id then
      .error (.located (.cycle (s.cycleNames active id)) s.name)
    else do
      let references := ((s.type? id).map (·.references)).getD []
      let ordered ← references.foldlM (s.visit fuel (active ++ [id])) ordered
      return ordered ++ [id]

/-- The numbers of the declared types and of the types they refer to, referred ones first. -/
def dependencyIds (s : Schema) : Except Fault (List TypeId) :=
  (s.declared.map (·.id)).foldlM
    (s.visit (s.declared.length + s.undeclared.length + 1) []) []

def dependencyOrder (s : Schema) : Except Fault (List ComplexType) :=
  s.dependencyIds.map fun ids => ids.filterMap s.type?

end XmlRecords.Schema
