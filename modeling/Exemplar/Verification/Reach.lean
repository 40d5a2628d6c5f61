import Exemplar.Primitive

/-!
# Reachable primitives

A term reaches the primitives that it names, and with a learned primitive everything that its body
names. Whether a program may iterate without an end of its own is a question of reachability alone.
-/

namespace Exemplar

namespace Table

/-- The positions that the body of a learned primitive names. -/
def callees (t : Table) (id : PrimId) : List PrimId :=
  match (t.get? id).bind Primitive.body? with
  | some body => body.primitives
  | none => []

/-- Some positions together with those that their bodies name. -/
def grow (t : Table) (ids : List PrimId) : List PrimId :=
  (ids ++ ids.flatMap t.callees).eraseDups

/-- The positions that a number of steps from body to body lead to. -/
def reachIn (t : Table) : (steps : Nat) → List PrimId → List PrimId
  | 0, ids => ids
  | steps + 1, ids => t.reachIn steps (t.grow ids)

/-- All positions that can be reached. A path that repeats no position takes at most as many steps
as there are primitives. -/
def reach (t : Table) (ids : List PrimId) : List PrimId := t.reachIn t.size ids

end Table

def Term.reachesFix (t : Table) (e : Term) : Bool :=
  (t.reach e.primitives).any (fun id => t.builtin? id == some .fix)

end Exemplar
