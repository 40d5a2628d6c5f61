/-!
# Enumeration statistics

How far an enumeration got, what became of its candidates, and why it stopped.
-/

namespace Exemplar

/-- Why an enumeration ended without a solution. -/
inductive Exhaustion where
  | maxSize
  | timeBudget
  | candidateLimit
  deriving Inhabited, Repr, DecidableEq

def Exhaustion.text : Exhaustion → String
  | .maxSize => "max size"
  | .timeBudget => "time budget"
  | .candidateLimit => "candidate limit"

namespace Enumeration

/-- What an enumeration counts. -/
structure Stats where
  /-- The greatest size all of whose candidates were built. -/
  levels : Nat
  candidates : Nat
  /-- Candidates whose outputs were new. -/
  retained : Nat
  /-- Candidates whose outputs had been seen before. -/
  pruned : Nat
  /-- Candidates that failed on an example. -/
  discarded : Nat
  exhaustedBy : Option Exhaustion
  deriving Inhabited, Repr, DecidableEq

def Stats.zero : Stats := ⟨0, 0, 0, 0, 0, none⟩

/-- The part of the candidates whose outputs had been seen before. -/
def Stats.pruningRatio (s : Stats) : Float :=
  if s.candidates = 0 then 0.0 else Float.ofNat s.pruned / Float.ofNat s.candidates

end Enumeration

end Exemplar
