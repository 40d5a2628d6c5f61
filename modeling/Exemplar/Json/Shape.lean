import Exemplar.Json.Basic

/-!
# Reading shapes out of JSON values

A record is an object with the record's field names, or an array of its fields in order; a choice is
a name, or an object whose only member is named for the alternative. Members of other names are
ignored, and a field that occurs twice is refused.
-/

namespace Exemplar.Json

/-! ## Plain values -/

def bool? : Json → Option Bool
  | .bool b => some b
  | _ => none

def str? : Json → Option String
  | .str s => some s
  | _ => none

/-- The integer, if the value is one between the bounds. -/
def between? (low high : Int) : Json → Option Int
  | .int n => if low ≤ n ∧ n ≤ high then some n else none
  | _ => none

/-- An integer of sixty-four signed bits. -/
def word? : Json → Option Int := between? (-9223372036854775808) 9223372036854775807

/-- A natural number of sixty-four bits. -/
def count? (j : Json) : Option Nat := (j.between? 0 18446744073709551615).map Int.toNat

/-- A natural number of thirty-two bits. -/
def index? (j : Json) : Option Nat := (j.between? 0 4294967295).map Int.toNat

/-- A finite floating-point number; an integer counts as one. -/
def float? : Json → Option Float
  | .float x => if x.isFinite then some x else none
  | .int n => some (Float.ofInt n)
  | _ => none

/-- The items of an array, each read by `f`. -/
def list? {α : Type} (f : Json → Option α) : Json → Option (List α)
  | .arr items => items.mapM f
  | _ => none

/-- What `f` reads, or nothing where the value is `null`. -/
def nullable? {α : Type} (f : Json → Option α) : Json → Option (Option α)
  | .null => some none
  | j => (f j).map some

/-! ## Records -/

/-- The fields that a value has, by name. -/
structure Fields where
  found : List (String × Json)
  /-- Whether an absent field may be left out: yes in an object, no in an array. -/
  named : Bool
  deriving Inhabited

/-- The fields of a record with these names. -/
def fields? (names : List String) : Json → Option Fields
  | .obj members =>
    let known := members.filter (fun m => names.contains m.1)
    if (known.map (·.1)).eraseDups.length = known.length then some ⟨known, true⟩ else none
  | .arr items => if items.length ≤ names.length then some ⟨names.zip items, false⟩ else none
  | _ => none

namespace Fields

/-- The value of a field, if the record has it. -/
def get? (fs : Fields) (name : String) : Option Json :=
  (fs.found.find? (fun m => m.1 == name)).map (·.2)

/-- A field that must be there. -/
def required? {α : Type} (fs : Fields) (name : String) (f : Json → Option α) : Option α :=
  (fs.get? name).bind f

/-- A field that may be `null`, and may be absent where fields are named. -/
def optional? {α : Type} (fs : Fields) (name : String) (f : Json → Option α) :
    Option (Option α) :=
  match fs.get? name with
  | some j => nullable? f j
  | none => if fs.named then some none else none

/-- A field that has a value of its own where it is absent. -/
def orDefault? {α : Type} (fs : Fields) (name : String) (f : Json → Option α) (default : α) :
    Option α :=
  match fs.get? name with
  | some j => f j
  | none => some default

end Fields

/-! ## Choices -/

/-- The name of a choice, and its content if it has one. -/
def choice? : Json → Option (String × Option Json)
  | .str s => some (s, none)
  | .obj [(name, content)] => some (name, some content)
  | _ => none

/-- An alternative without content: its name, or its name with `null`. -/
def name? : Json → Option String
  | .str s => some s
  | .obj [(name, .null)] => some name
  | _ => none

/-- The fields of an alternative, which are always named. -/
def contentFields? (names : List String) : Option Json → Option Fields
  | some (.obj members) => fields? names (.obj members)
  | _ => none

end Exemplar.Json
