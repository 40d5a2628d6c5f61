import Exemplar.Eval
import Exemplar.Problem

/-!
# Fitness

How well a program fits the examples. The better of two programs satisfies more examples; among
equals it is the smaller one, and then the one that fails less often.
-/

namespace Exemplar

/-- How a program does on the examples. -/
structure Fitness where
  satisfied : Nat
  total : Nat
  size : Nat
  failures : Nat
  deriving Inhabited, Repr, DecidableEq

namespace Fitness

/-- The fitness of a program: its outputs on the examples are counted as right, wrong or failed. -/
def evaluate (m : Machine) (examples : List Example) (e : Term) : Fitness :=
  let results := examples.map (fun ex => (m.eval e ex.inputs, ex.output))
  { satisfied := results.countP (fun r => r.1.toOption == some r.2)
    total := examples.length
    size := e.size m.table
    failures := results.countP (fun r => r.1.toOption.isNone) }

/-- The part of the examples that is satisfied. -/
def score (f : Fitness) : Float :=
  if f.total = 0 then 0.0 else Float.ofNat f.satisfied / Float.ofNat f.total

/-- Whether there are examples and all are satisfied. -/
def perfect (f : Fitness) : Bool := 0 < f.total && f.satisfied == f.total

/-- The order of fitness, the better one greater. -/
def order (f g : Fitness) : Ordering :=
  (compare f.satisfied g.satisfied).then
    ((compare g.size f.size).then (compare g.failures f.failures))

def better (f g : Fitness) : Bool := order f g == .gt

def text (f : Fitness) : String :=
  toString f.satisfied ++ "/" ++ toString f.total ++ " (size " ++ toString f.size ++ ", " ++
    toString f.failures ++ " failures)"

/-- The items in the order of their fitness, the best first; equally fit ones keep their places. -/
def sortBestFirst {α : Type} (fitness : α → Fitness) (items : List α) : List α :=
  items.mergeSort (fun a b => !better (fitness b) (fitness a))

end Fitness

end Exemplar
