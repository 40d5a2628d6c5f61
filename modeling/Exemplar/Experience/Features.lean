import Exemplar.Problem

/-!
# Features of problems

What can be seen of a problem before it is solved, and the coarse bucket that it falls into. What is
known about strategies is kept by bucket.
-/

namespace Exemplar

/-- The shape of a problem. -/
structure Features where
  signature : Signature
  /-- The number of examples. -/
  examples : Nat
  /-- The greatest absolute value of an integer in the examples. -/
  magnitude : Nat
  deriving Inhabited, Repr, DecidableEq

/-- How many examples a problem has. -/
inductive ExampleBand where
  | few
  | some
  | many
  deriving Inhabited, Repr, DecidableEq

/-- How large the integers of a problem are. -/
inductive MagnitudeBand where
  | small
  | medium
  | large
  deriving Inhabited, Repr, DecidableEq

/-- A class of problems. -/
structure Bucket where
  arity : Nat
  output : Ty
  examples : ExampleBand
  magnitude : MagnitudeBand
  deriving Inhabited, Repr, DecidableEq

namespace ExampleBand

/-- Up to three examples are few, more than eight are many. -/
def ofCount (n : Nat) : ExampleBand := if n ≤ 3 then few else if n ≤ 8 then some else many

/-- The place in the order from few to many. -/
def rank : ExampleBand → Nat
  | few => 0
  | some => 1
  | many => 2

def text : ExampleBand → String
  | few => "few"
  | some => "some"
  | many => "many"

end ExampleBand

namespace MagnitudeBand

/-- Up to ten is small, more than a thousand is large. -/
def ofMagnitude (n : Nat) : MagnitudeBand :=
  if n ≤ 10 then small else if n ≤ 1000 then medium else large

/-- The place in the order from small to large. -/
def rank : MagnitudeBand → Nat
  | small => 0
  | medium => 1
  | large => 2

def text : MagnitudeBand → String
  | small => "small"
  | medium => "medium"
  | large => "large"

end MagnitudeBand

namespace Bucket

/-- The order of buckets: by the number of inputs, then by the output type, then by the bands. -/
def order (a b : Bucket) : Ordering :=
  (compare a.arity b.arity).then ((Ty.order a.output b.output).then
    ((compare a.examples.rank b.examples.rank).then (compare a.magnitude.rank b.magnitude.rank)))

def text (b : Bucket) : String :=
  toString b.arity ++ "->" ++ b.output.text ++ "/" ++ b.examples.text ++ "/" ++ b.magnitude.text

end Bucket

namespace Features

/-- The integers of an example, those of its output last. -/
def integersOf (ex : Example) : List Int := ex.inputs.flatMap Value.integers ++ ex.output.integers

def ofExamples (examples : List Example) : Except ProblemError Features := do
  let signature ← Problem.signature examples
  return ⟨signature, examples.length,
    ((examples.flatMap integersOf).map Int.natAbs).foldl max 0⟩

def arity (f : Features) : Nat := f.signature.arity

def bucket (f : Features) : Bucket :=
  ⟨f.arity, f.signature.ret, .ofCount f.examples, .ofMagnitude f.magnitude⟩

end Features

end Exemplar
