import Exemplar.Json.Scan

/-!
# Reading JSON values

The value that a text is, whatever its shape.
-/

namespace Exemplar.Json

namespace Scan

/-- A value that holds no others. -/
def atom : Scan Json := do
  match ← next? with
  | none => faultAhead .endBeforeValue
  | some c =>
    if c = '"' then return .str (← quoted)
    else if startsNumber c then number
    else if c = 'n' then
      word ['n', 'u', 'l', 'l']
      return .null
    else if c = 't' then
      word ['t', 'r', 'u', 'e']
      return .bool true
    else if c = 'f' then
      word ['f', 'a', 'l', 's', 'e']
      return .bool false
    else faultAhead .noValue

/-- The members of an object whose values are read by `value`, behind those that stand in `members`
in reverse order. -/
def membersFrom (value : Scan Json) (members : List (String × Json)) :
    Nat → Scan (List (String × Json))
  | 0 => return members.reverse
  | bound + 1 => do
    if ← anotherMember members.isEmpty then
      let key ← quoted
      colon
      let v ← value
      membersFrom value ((key, v) :: members) bound
    else return members.reverse

/-- A value in which lists and objects are nested at most to a depth. -/
def value : Nat → Scan Json
  | 0 => do
    let c ← next?
    if c = some '[' || c = some '\x7b' then faultAhead .tooDeep else atom
  | depth + 1 => do
    match ← next? with
    | some '[' =>
      pass
      let items ← itemsFrom (value depth) [] (← get).bound
      endList
      return .arr items
    | some '\x7b' =>
      pass
      let members ← membersFrom (value depth) [] (← get).bound
      endObject
      return .obj members
    | _ => atom

end Scan

/-- How deep lists and objects may be nested. -/
def maxDepth : Nat := 127

/-- The JSON value that a text is. -/
def read? (s : String) : Option Json :=
  match (Scan.value maxDepth).readText s with
  | .ok v => some v
  | .error _ => none

end Exemplar.Json
