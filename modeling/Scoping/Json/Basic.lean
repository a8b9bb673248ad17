/-!
# JSON values

The values that reports are written as. Numbers are natural, for a report counts and measures; the
members of an object keep their order.
-/

namespace Scoping

/-- A JSON value. -/
inductive Json where
  | null
  | number (n : Nat)
  | string (s : String)
  | array (items : List Json)
  | object (members : List (String × Json))
  deriving Repr, Inhabited

namespace Json

/-- The value, or null where there is none. -/
def ofOption {α : Type} (f : α → Json) : Option α → Json
  | some a => f a
  | none => null

/-- A member that is left out where there is no value. -/
def memberOf {α : Type} (name : String) (f : α → Json) : Option α → List (String × Json)
  | some a => [(name, f a)]
  | none => []

/-- A member that is left out where the list is empty. -/
def memberOfList {α : Type} (name : String) (f : α → Json) : List α → List (String × Json)
  | [] => []
  | as => [(name, array (as.map f))]

end Json

end Scoping
