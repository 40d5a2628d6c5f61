import Exemplar.Random.Source

/-!
# The ChaCha source

The words are the key stream of the ChaCha cipher with twelve rounds, block after block. The key is
drawn from a seed of sixty-four bits by a congruential generator with a permuted output.
-/

namespace Exemplar

/-- A key stream and how far it was read. -/
structure ChaCha where
  key : Vector UInt32 8
  /-- The number of the next block. -/
  counter : UInt64
  /-- The words of the present block that were not read. -/
  words : List UInt32

namespace ChaCha

/-! ## Blocks -/

/-- The sixteen words on which the cipher works. -/
abbrev Block := Vector UInt32 16

/-- Rotates a word to the left. -/
def rotl (w : UInt32) (n : UInt32) : UInt32 := (w <<< n) ||| (w >>> (32 - n))

/-- Adds word `b` to word `a` and rotates what word `d` has in common with the sum. -/
def mix (s : Block) (a b d : Fin 16) (n : UInt32) : Block :=
  let s := s.set a (s[a] + s[b])
  s.set d (rotl (s[d] ^^^ s[a]) n)

/-- The quarter round on four words. -/
def quarterRound (s : Block) (a b c d : Fin 16) : Block :=
  mix (mix (mix (mix s a b d 16) c d b 12) a b d 8) c d b 7

/-- A round on the columns and one on the diagonals. -/
def doubleRound (s : Block) : Block :=
  let s := quarterRound s 0 4 8 12
  let s := quarterRound s 1 5 9 13
  let s := quarterRound s 2 6 10 14
  let s := quarterRound s 3 7 11 15
  let s := quarterRound s 0 5 10 15
  let s := quarterRound s 1 6 11 12
  let s := quarterRound s 2 7 8 13
  quarterRound s 3 4 9 14

def rounds : Nat → Block → Block
  | 0, s => s
  | n + 1, s => rounds n (doubleRound s)

/-- The words before the first round: four constants, the key, and the number of the block. -/
def initial (key : Vector UInt32 8) (counter : UInt64) : Block :=
  #v[0x61707865, 0x3320646e, 0x79622d32, 0x6b206574,
    key[0], key[1], key[2], key[3], key[4], key[5], key[6], key[7],
    counter.toUInt32, (counter >>> 32).toUInt32, 0, 0]

def block (key : Vector UInt32 8) (counter : UInt64) : Block :=
  let start := initial key counter
  Vector.zipWith (· + ·) (rounds 6 start) start

/-! ## Reading -/

def next32 (c : ChaCha) : UInt32 × ChaCha :=
  match c.words with
  | w :: rest => (w, { c with words := rest })
  | [] =>
    let ws := block c.key c.counter
    (ws[0], { c with counter := c.counter + 1, words := ws.toList.tail })

/-- The next two words, of which the first is the low half. -/
def next64 (c : ChaCha) : UInt64 × ChaCha :=
  let (low, c) := c.next32
  let (high, c) := c.next32
  (low.toUInt64 ||| (high.toUInt64 <<< 32), c)

instance : RandomSource ChaCha := ⟨next32, next64⟩

/-! ## Seeds -/

/-- The state of the generator that follows a state. -/
def seedStep (s : UInt64) : UInt64 := s * 6364136223846793005 + 11634580027462260723

/-- The word that the generator puts out at a state: a part of it, rotated by its highest bits. -/
def seedWord (s : UInt64) : UInt32 :=
  let w := (((s >>> 18) ^^^ s) >>> 27).toUInt32
  let n := (s >>> 59).toUInt32
  (w >>> n) ||| (w <<< ((32 - n) % 32))

/-- The state of the generator after a number of steps. -/
def seedState (seed : UInt64) : Nat → UInt64
  | 0 => seed
  | n + 1 => seedStep (seedState seed n)

def ofSeed (seed : Nat) : ChaCha :=
  ⟨Vector.ofFn (fun i => seedWord (seedState seed.toUInt64 (i.val + 1))), 0, []⟩

end ChaCha

end Exemplar
