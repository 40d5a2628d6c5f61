/-!
# JSON values

Integers and floating-point numbers are kept apart, and an object keeps its members in the order in
which they were written.
-/

namespace Exemplar

inductive Json where
  | null
  | bool (b : Bool)
  | int (n : Int)
  | float (x : Float)
  | str (s : String)
  | arr (items : List Json)
  | obj (members : List (String × Json))
  deriving Inhabited

namespace Json

/-- The value, or `null` where there is none. -/
def ofOption {α : Type} (f : α → Json) : Option α → Json
  | some a => f a
  | none => .null

def ofList {α : Type} (f : α → Json) (xs : List α) : Json := .arr (xs.map f)

def nat (n : Nat) : Json := .int n

/-- An object with a single member, the form of a choice with content. -/
def tagged (name : String) (content : Json) : Json := .obj [(name, content)]

/-- The last member of a name, the one that counts if a name is repeated. -/
def member? (name : String) : Json → Option Json
  | .obj members => (members.reverse.find? (fun m => m.1 == name)).map (·.2)
  | _ => none

/-- The members of a text array. -/
def ofTexts (ss : List String) : Json := .arr (ss.map .str)

end Json

end Exemplar
