import Exemplar.Decimal.Binary

/-!
# The fewest digits that read back

Of all decimals that round to a floating-point number, one with the fewest digits is selected, and
of those the nearest. Two layouts are used: the plain one writes every place and no exponent; the
data layout always shows a point and takes an exponent for very large and very small numbers.
-/

namespace Exemplar.Decimal

/-- The decimal `digits * 10 ^ exp`. -/
structure Dec where
  digits : Nat
  exp : Int
  deriving Inhabited, Repr, DecidableEq

/-- Which of two equally near candidates is taken. -/
inductive Tie where
  | toEven
  | up
  deriving Inhabited, Repr, DecidableEq

/-- Compares `a * 10 ^ i` with `n * 2 ^ j`. -/
def compareScaled (a : Nat) (i : Int) (n : Nat) (j : Int) : Ordering :=
  compare ((a * pow10 i.toNat) <<< (-j).toNat) (n <<< j.toNat * pow10 (-i).toNat)

namespace Binary

/-- Whether a decimal lies among the numbers that round to the magnitude: between the halfway
points to its neighbours, which belong to it if its significand is even. -/
def readsBack (b : Binary) (d : Dec) : Bool :=
  let low := if b.narrowBelow then 4 * b.m - 1 else 4 * b.m - 2
  let high := 4 * b.m + 2
  let ends := b.m % 2 = 0
  let below := compareScaled d.digits d.exp low (b.q - 2)
  let above := compareScaled d.digits d.exp high (b.q - 2)
  (below == .gt || (ends && below == .eq)) && (above == .lt || (ends && above == .eq))

/-- How many zeros stand between the point and the first digit of a fraction below one, counted up
to a bound. -/
def leadingZeros (num den : Nat) : Nat → Nat
  | 0 => 0
  | bound + 1 => if num * 10 < den then leadingZeros (num * 10) den bound + 1 else 0

/-- The exponent `k` for which a positive magnitude is below `10 ^ k` and not below
`10 ^ (k - 1)`. -/
def scale (b : Binary) : Int :=
  let whole := b.num / b.den
  if whole = 0 then -(leadingZeros b.num b.den 400 : Int)
  else (Decimal.digits whole).length

/-- The magnitude divided by `10 ^ e` and rounded down. -/
def gridFloor (b : Binary) (e : Int) : Nat :=
  (b.num * pow10 (-e).toNat) / (b.den * pow10 e.toNat)

/-- Of the two neighbours of the magnitude on the grid of `10 ^ e`, the nearer one that reads
back. -/
def onGrid? (b : Binary) (tie : Tie) (e : Int) : Option Dec :=
  let low : Dec := ⟨b.gridFloor e, e⟩
  let high : Dec := ⟨b.gridFloor e + 1, e⟩
  match b.readsBack low, b.readsBack high with
  | false, false => none
  | true, false => some low
  | false, true => some high
  | true, true =>
    match compareScaled (2 * low.digits + 1) e (2 * b.m) b.q with
    | .gt => some low
    | .lt => some high
    | .eq =>
      match tie with
      | .up => some high
      | .toEven => if low.digits % 2 = 0 then some low else some high

def exact (b : Binary) : Dec :=
  if 0 ≤ b.q then ⟨b.m <<< b.q.toNat, 0⟩
  else ⟨b.m * Nat.pow 5 (-b.q).toNat, b.q⟩

end Binary

/-- The decimal without the trailing zeros of its digits, of which at most `bound` are dropped. -/
def Dec.strip : Nat → Dec → Dec
  | 0, d => d
  | bound + 1, d =>
    if d.digits % 10 = 0 && d.digits ≠ 0 then Dec.strip bound ⟨d.digits / 10, d.exp + 1⟩ else d

/-- The selected decimal of a positive magnitude: the coarsest grid of at most seventeen digits
with a neighbour that reads back. -/
def Binary.select (b : Binary) (tie : Tie) : Dec :=
  let k := b.scale
  let found := (List.range 17).findSome? (fun n => b.onGrid? tie (k - (n + 1 : Nat)))
  (found.getD b.exact).strip 1100

/-- A decimal with every place written and no exponent. -/
def Dec.plain (d : Dec) : String :=
  let ds := Decimal.digits d.digits
  let n := ds.length
  if 0 ≤ d.exp then String.ofList (ds ++ List.replicate d.exp.toNat '0')
  else
    let behind := (-d.exp).toNat
    if behind < n then
      String.ofList (ds.take (n - behind)) ++ "." ++ String.ofList (ds.drop (n - behind))
    else "0." ++ String.ofList (List.replicate (behind - n) '0' ++ ds)

def signText (negative : Bool) : String := if negative then "-" else ""

/-- The plain layout: no exponent, and no point in a whole number. -/
def plain (x : Float) : String :=
  match Parts.ofFloat x with
  | .nan => "NaN"
  | .infinite negative => signText negative ++ "inf"
  | .finite negative b =>
    signText negative ++ (if b.m = 0 then "0" else (b.select .up).plain)

/-- The data layout of a positive decimal: the point stands at most sixteen digits behind the first
digit and at most five zeros before it; otherwise there is an exponent with a sign. -/
def Dec.data (d : Dec) : String :=
  let ds := Decimal.digits d.digits
  let point := (ds.length : Int) + d.exp
  if -5 < point && point ≤ 16 then
    if 0 ≤ d.exp then d.plain ++ ".0" else d.plain
  else
    let tail := ds.drop 1
    String.ofList (ds.take 1) ++ (if tail.isEmpty then "" else "." ++ String.ofList tail) ++ "e" ++
      (if 0 < point then "+" else "") ++ toString (point - 1)

/-- The data layout of a finite number; there is none for the others. -/
def data? (x : Float) : Option String :=
  match Parts.ofFloat x with
  | .finite negative b =>
    some (signText negative ++ (if b.m = 0 then "0.0" else (b.select .toEven).data))
  | _ => none

end Exemplar.Decimal
