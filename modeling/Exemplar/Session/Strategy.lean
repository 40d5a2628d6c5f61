import Exemplar.Enumeration.Search
import Exemplar.Evolution.Run

/-!
# Strategies

A strategy looks for a program that reproduces examples. It gets a clock for its time budget, and
returns a candidate or the reason why it has none.
-/

namespace Exemplar

/-- A program that a strategy proposes. -/
structure Candidate where
  term : Term
  size : Nat
  /-- Whether the strategy saw the program reproduce all examples. -/
  exact : Bool
  deriving Inhabited, Repr, DecidableEq

/-- A named way to look for programs. -/
structure Strategy where
  name : String
  attempt : Clock → Table → Settings → List Example → Except Error Candidate

namespace Strategy

def ofEnumeration (o : Enumeration.Outcome) : Except Error Candidate :=
  match o.solution with
  | some s => .ok ⟨s.term, s.size, true⟩
  | none =>
    .error (.enumerationExhausted (o.stats.exhaustedBy.getD .maxSize) o.stats.candidates)

/-- Enumeration of all programs by size. -/
def enumerative : Strategy where
  name := "enumerative"
  attempt clock t s examples := do
    ofEnumeration (← Enumeration.run (t.machine s.limits) (.ofSettings s clock) examples)

/-- The candidate of an evolution that has ended. An individual that is not perfect counts only if
it is better than nothing. -/
def ofEvolution (t : Table) (s : Settings) (o : Evolution.Outcome) : Except Error Candidate :=
  if o.perfect || s.bestEffort then .ok ⟨o.best.term, o.best.term.size t, o.perfect⟩
  else .error (.evolutionExhausted o.best.fitness o.generations)

def genetic : Strategy where
  name := "genetic"
  attempt clock t s examples := do ofEvolution t s (← Evolution.run t s clock examples)

/-- The strategies of a new session, in the order of their registration. -/
def standard : List Strategy := [enumerative, genetic]

end Strategy

end Exemplar
