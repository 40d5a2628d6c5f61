import Exemplar.Decimal.Binary

/-!
# Numerals

The number texts of data files: a sign, digits without a leading zero, and optionally a fraction and
an exponent. A numeral with neither, that fits sixty-four bits, is an integer; every other one is a
floating-point number, whose digits beyond the sixty-four bits of its significand are dropped.
-/

namespace Exemplar.Decimal

/-- A number text in its parts: a sign, digits, and optionally a fraction and an exponent. -/
structure Numeral where
  negative : Bool
  whole : List Char
  /-- The digits behind the point, if there is a point. -/
  fraction : Option (List Char)
  exponent : Option Int
  deriving Inhabited, Repr

def ofDigits (ds : List Char) : Nat := ds.foldl (fun n c => 10 * n + (c.toNat - '0'.toNat)) 0

namespace Numeral

def maxSignificand : Nat := 18446744073709551615

/-- One more digit of the significand, with the power of ten that it moves. Once a digit does not
fit, it and all later ones on its side of the point are dropped. -/
def takeDigit (step : Int) (s : Nat × Int × Bool) (c : Char) : Nat × Int × Bool :=
  let (n, e, full) := s
  let next := 10 * n + (c.toNat - '0'.toNat)
  if full || next > maxSignificand then (n, e + (1 + step), true) else (next, e + step, false)

/-- The significand and the power of ten that the digits leave it with. -/
def significand (n : Numeral) : Nat × Int :=
  let (w, e, _) := n.whole.foldl (takeDigit 0) (0, 0, false)
  let (f, e', _) := (n.fraction.getD []).foldl (takeDigit (-1)) (w, e, false)
  (f, e')

/-- The integer that the numeral is, if it is one: no fraction, no exponent, not a negative zero,
and within sixty-four bits, signed if negative. -/
def int? (n : Numeral) : Option Int :=
  let v := ofDigits n.whole
  if n.fraction.isSome || n.exponent.isSome then none
  else if n.negative then
    if v = 0 || v > 9223372036854775808 then none else some (-(v : Int))
  else if v > maxSignificand then none else some v

/-- The greatest power of ten that is applied in one step. -/
def maxPower : Nat := 308

/-- `x * 10 ^ e`, in steps of at most `maxPower`; infinite if it is out of range. -/
def scaled (x : Float) (e : Int) : Nat → Float
  | 0 => x
  | bound + 1 =>
    if 0 ≤ e then
      if x == 0.0 then x
      else if e ≤ maxPower then x * Float.ofScientific 1 false e.toNat
      else 1.0 / 0.0
    else if -e ≤ maxPower then x / Float.ofScientific 1 false (-e).toNat
    else if x == 0.0 then x
    else scaled (x / Float.ofScientific 1 false maxPower) (e + maxPower) bound

/-- The floating-point number that the numeral is; infinite if it is out of range. -/
def float (n : Numeral) : Float :=
  let (s, e) := n.significand
  let x := scaled (Float.ofNat s) (e + n.exponent.getD 0) 16
  if n.negative then -x else x

end Numeral

end Exemplar.Decimal
