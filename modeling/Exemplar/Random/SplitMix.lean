import Exemplar.Random.Source

/-!
# The SplitMix source

A counter with a fixed stride, whose every state is scrambled into a word.
-/

namespace Exemplar

/-- The state of the counter. -/
structure SplitMix where
  state : UInt64
  deriving Inhabited, Repr, DecidableEq

namespace SplitMix

def scramble (s : UInt64) : UInt64 :=
  let z := (s ^^^ (s >>> 30)) * 0xbf58476d1ce4e5b9
  let z := (z ^^^ (z >>> 27)) * 0x94d049bb133111eb
  z ^^^ (z >>> 31)

def next64 (m : SplitMix) : UInt64 × SplitMix :=
  let s := m.state + 0x9e3779b97f4a7c15
  (scramble s, ⟨s⟩)

/-- The upper half of the next word. -/
def next32 (m : SplitMix) : UInt32 × SplitMix :=
  let (w, m) := m.next64
  ((w >>> 32).toUInt32, m)

instance : RandomSource SplitMix := ⟨next32, next64⟩

def ofSeed (seed : Nat) : SplitMix := ⟨seed.toUInt64⟩

end SplitMix

end Exemplar
