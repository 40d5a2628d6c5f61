/-!
# Random choices

A source hands out words of thirty-two and of sixty-four bits. All choices are made over any source,
so that what holds of a choice holds whatever the words are.
-/

namespace Exemplar

/-- What hands out words. -/
class RandomSource (σ : Type) where
  next32 : σ → UInt32 × σ
  next64 : σ → UInt64 × σ

/-- A result that depends on words of a source. -/
abbrev Draw (σ α : Type) := StateM σ α

namespace Random

variable {σ : Type} [RandomSource σ]

/-! ## Words -/

/-- The next word of thirty-two bits, as a number. -/
def word32 : Draw σ Nat := do
  let (w, s) := RandomSource.next32 (← get)
  set s
  return w.toNat

/-- The next word of sixty-four bits, as a number. -/
def word64 : Draw σ Nat := do
  let (w, s) := RandomSource.next64 (← get)
  set s
  return w.toNat

/-! ## Numbers below a bound -/

/-- The part of `n` that a word of `width` bits stands for. -/
def scale (width n word : Nat) : Nat := (word * n) >>> width

/-- Whether a word is taken. As many words are taken for each number below `n`, because `n` is first
multiplied by the greatest power of two that keeps it within the width. -/
def accepts (width n word : Nat) : Bool :=
  word * n % (1 <<< width) < n <<< (width - (n.log2 + 1))

/-- How many words are refused at most. At least every second word is taken, so that no source is
expected to come to this bound. -/
def maxRefusals : Nat := 128

/-- A number below `n`; after a number of refusals the next word is taken as it is. -/
def belowWith (width n : Nat) (word : Draw σ Nat) : (refusals : Nat) → Draw σ Nat
  | 0 => return scale width n (← word)
  | refusals + 1 => do
    let w ← word
    if accepts width n w then return scale width n w else belowWith width n word refusals

/-- A number below `n` from words of thirty-two bits. -/
def below32 (n : Nat) : Draw σ Nat := belowWith 32 n word32 maxRefusals

/-- A number below `n` from words of sixty-four bits. -/
def below64 (n : Nat) : Draw σ Nat := belowWith 64 n word64 maxRefusals

/-! ## Members and orders -/

/-- A member of a list. No word is taken for an empty list. -/
def choose {α : Type} (xs : List α) : Draw σ (Option α) :=
  if xs.isEmpty then return none else return xs[← below32 xs.length]?

/-- Exchanges the member at index `i` with one at or before it, and so on down to index one. -/
def shuffleFrom {α : Type} : (i : Nat) → Array α → Draw σ (Array α)
  | 0, xs => return xs
  | i + 1, xs => do
    let j ← below32 (i + 2)
    shuffleFrom i (xs.swapIfInBounds (i + 1) j)

def shuffle {α : Type} (xs : List α) : Draw σ (List α) :=
  return (← shuffleFrom (xs.length - 1) xs.toArray).toList

/-! ## Probabilities -/

/-- Whether an event of a probability occurs. No word is taken for a certain event. -/
def chance (p : Float) : Draw σ Bool :=
  if p == 1.0 then return true
  else return (← word64) < (p * 18446744073709551616.0).toUInt64.toNat

/-- A number of fifty-three bits in the interval from zero to one. -/
def unit : Draw σ Float :=
  return Float.ofNat ((← word64) >>> 11) / 9007199254740992.0

end Random

end Exemplar
