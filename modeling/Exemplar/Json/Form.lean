import Exemplar.Json.Reader
import Exemplar.Json.Shape

/-!
# Reading text of a known form

Scans that know what they want: the first part of a text that is something else is named in the
fault, with its place. A record begins with the values that it has where nothing is written, and
every field that is found changes them.
-/

namespace Exemplar.Json.Scan

/-! ## Plain values -/

/-- The fault of a value of another kind than expected. Lists and objects are not read for it. -/
def refuse {α : Type} (expected : String) : Scan α := do
  match ← next? with
  | some '[' => faultHere (.wrongKind (.arr []) expected)
  | some '\x7b' => faultHere (.wrongKind (.obj []) expected)
  | _ =>
    let v ← atom
    faultHere (.wrongKind v expected)

/-- A number that `accept` takes; `kind` names what it takes. -/
def numeric {α : Type} (kind : String) (accept : Json → Option α) : Scan α := do
  if (← next?).any startsNumber then
    let v ← number
    match accept v, v with
    | some a, _ => return a
    | none, .int _ => faultHere (.wrongValue v kind)
    | none, _ => faultHere (.wrongKind v kind)
  else refuse kind

def bool : Scan Bool := do
  match ← next? with
  | some 't' =>
    word ['t', 'r', 'u', 'e']
    return true
  | some 'f' =>
    word ['f', 'a', 'l', 's', 'e']
    return false
  | _ => refuse "a boolean"

def list {α : Type} (item : Scan α) : Scan (List α) := do
  if (← next?) = some '[' then
    pass
    let items ← itemsFrom item [] (← get).bound
    endList
    return items
  else refuse "a sequence"

/-! ## Records -/

/-- How a record stands in a text. -/
structure Form (σ α : Type) where
  /-- What the record is called in faults. -/
  name : String
  /-- The fields in their order, and how each changes what has been read. -/
  fields : List (String × (σ → Scan σ))
  /-- Whether every field must be there, and no other. -/
  strict : Bool
  /-- The record, if its fields fit together. -/
  finish : σ → Except Cause α

namespace Form

variable {σ α : Type}

def names (f : Form σ α) : List String := f.fields.map (·.1)

/-- The record with named fields, when those in `seen` have been found. -/
def finishNamed (f : Form σ α) (seen : List String) (s : σ) : Except Cause α :=
  match f.names.find? (fun name => f.strict && !seen.contains name) with
  | some name => .error (.missingField name)
  | none => f.finish s

/-- The record in the members of an object, when the fields in `seen` have been found. -/
def membersFrom (f : Form σ α) (first : Bool) (seen : List String) (s : σ) :
    Nat → Scan (Except Cause α)
  | 0 => return f.finishNamed seen s
  | bound + 1 => do
    if ← anotherMember first then
      let name ← quoted
      match f.fields.lookup name with
      | some field =>
        if seen.contains name then return .error (.repeatedField name)
        else
          colon
          let s ← field s
          membersFrom f false (name :: seen) s bound
      | none =>
        if f.strict then return .error (.unknownField name f.names)
        else
          colon
          skip
          membersFrom f false seen s bound
    else return f.finishNamed seen s

/-- The record in the items of a list, when `count` fields have been found and these are left. -/
def itemsFrom (f : Form σ α) (count : Nat) (s : σ) :
    List (String × (σ → Scan σ)) → Scan (Except Cause α)
  | [] => return f.finish s
  | (_, field) :: fields => do
    if ← anotherItem (count = 0) then
      let s ← field s
      itemsFrom f (count + 1) s fields
    else if f.strict then return .error (.wrongLength count ("struct " ++ f.name))
    else return f.finish s

/-- The record, and then the end of its brackets. A fault of the record as a whole shows behind
that end, if it follows. -/
def closed (record : Scan (Except Cause α)) (close : Scan Unit) : Scan α := do
  match ← record with
  | .ok a =>
    close
    return a
  | .error cause =>
    tryCatch close (fun _ => return ())
    faultHere cause

/-- The record in an object, or in a list that has its fields in order; `s` has what holds where
nothing is written. -/
def read (f : Form σ α) (s : σ) : Scan α := do
  match ← next? with
  | some '[' =>
    pass
    closed (f.itemsFrom 0 s f.fields) endList
  | some '\x7b' =>
    pass
    closed (f.membersFrom true [] s (← get).bound) endObject
  | _ => refuse ("struct " ++ f.name)

end Form

end Exemplar.Json.Scan
