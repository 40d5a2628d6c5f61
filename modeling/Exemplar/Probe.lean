import Exemplar.Value

/-!
# Probes

Fixed inputs on which programs are compared beyond the examples of a problem. The probe tuples of a
parameter list are the combinations of the parameters' pools, the first parameter varying fastest;
of too many combinations a limited number is taken in equal steps.
-/

namespace Exemplar.Probe

/-- The values that stand for a type; a function type has none. -/
def pool : Ty → List Value
  | .int => [0, 1, -1, 2, -3, 5, 7, 10, -12, 100].map .int
  | .bool => [.bool false, .bool true]
  | .list => [[], [1], [0, 1, 2], [-2, 5, 3], [4, 4, 1, 0]].map .list
  | .func .. => []

/-- The combination of a number, read in the mixed base of the pools' sizes with the least digit
first. -/
def tuple : List (List Value) → Nat → List Value
  | [], _ => []
  | vs :: rest, n => vs.getD (n % vs.length) (.int 0) :: tuple rest (n / vs.length)

/-- The greatest number of combinations that is counted. -/
def maxCount : Nat := 18446744073709551615

/-- The number of combinations of the pools, as far as it is counted. -/
def count (pools : List (List Value)) : Nat :=
  min (pools.foldl (fun n vs => n * vs.length) 1) maxCount

/-- At most `limit` probe tuples of a parameter list. Without parameters there is the empty tuple,
whatever the limit. -/
def inputs (params : List Ty) (limit : Nat) : List (List Value) :=
  let pools := params.map pool
  if params.isEmpty then [[]]
  else if limit = 0 || pools.any List.isEmpty then []
  else
    let total := count pools
    let stride := if total ≤ limit then 1 else total / limit
    (List.range (min total limit)).map (fun n => tuple pools (n * stride))

end Exemplar.Probe
