import Exemplar.Decimal.Binary

/-!
# A fixed number of places

The exact value is rounded to a number of places after the point; a half goes to the even neighbour.
-/

namespace Exemplar.Decimal

/-- The quotient rounded to a whole number, a half to the even neighbour. -/
def roundDiv (num den : Nat) : Nat :=
  let q := num / den
  match compare (2 * (num % den)) den with
  | .lt => q
  | .gt => q + 1
  | .eq => if q % 2 = 0 then q else q + 1

/-- The digits of `n` with a point before the last `places` of them. -/
def placed (places n : Nat) : String :=
  let ds := digits n
  let padded := List.replicate (places + 1 - ds.length) '0' ++ ds
  let whole := padded.length - places
  if places = 0 then String.ofList padded
  else String.ofList (padded.take whole) ++ "." ++ String.ofList (padded.drop whole)

/-- A floating-point number with a fixed number of places; a zero keeps its sign. -/
def fixed (places : Nat) (x : Float) : String :=
  match Parts.ofFloat x with
  | .nan => "NaN"
  | .infinite negative => if negative then "-inf" else "inf"
  | .finite negative b =>
    (if negative then "-" else "") ++ placed places (roundDiv (b.num * pow10 places) b.den)

end Exemplar.Decimal
