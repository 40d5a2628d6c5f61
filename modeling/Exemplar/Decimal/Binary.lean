/-!
# Binary floating-point numbers as exact fractions

A finite number of sixty-four bits is a sign and a magnitude `m * 2 ^ q`. Everything that writes
such a number works on this exact form.
-/

namespace Exemplar.Decimal

/-- The magnitude `m * 2 ^ q` of a finite number. -/
structure Binary where
  m : Nat
  q : Int
  /-- Whether the gap to the next smaller magnitude is half the gap to the next greater one. -/
  narrowBelow : Bool
  deriving Inhabited, Repr, DecidableEq

/-- A floating-point number, taken apart. -/
inductive Parts where
  | nan
  | infinite (negative : Bool)
  | finite (negative : Bool) (magnitude : Binary)
  deriving Inhabited, Repr, DecidableEq

/-- The magnitude with an exponent field and a fraction field. -/
def Binary.ofFields (exponent fraction : Nat) : Binary :=
  if exponent = 0 then ⟨fraction, -1074, false⟩
  else ⟨1 <<< 52 + fraction, (exponent : Int) - 1075, fraction = 0 && exponent > 1⟩

def Parts.ofBits (bits : UInt64) : Parts :=
  let negative := bits >>> 63 == 1
  let exponent := ((bits >>> 52) &&& 0x7FF).toNat
  let fraction := (bits &&& 0xFFFFFFFFFFFFF).toNat
  if exponent = 0x7FF then
    if fraction = 0 then .infinite negative else .nan
  else .finite negative (.ofFields exponent fraction)

def Parts.ofFloat (x : Float) : Parts := .ofBits x.toBits

namespace Binary

/-- The numerator of the magnitude as a fraction in whole numbers. -/
def num (b : Binary) : Nat := b.m <<< b.q.toNat

/-- The denominator of the magnitude as a fraction in whole numbers. -/
def den (b : Binary) : Nat := 1 <<< (-b.q).toNat

end Binary

def pow10 (n : Nat) : Nat := Nat.pow 10 n

/-- The digits of a natural number in base ten, the leading one first. -/
def digits (n : Nat) : List Char := Nat.toDigits 10 n

end Exemplar.Decimal
