import Exemplar.Decimal.Fixed
import Exemplar.Experience.Record

/-!
# Journals

What a session remembers and reports: the attempts of a request, the counts over its lifetime, the
names of its capabilities, and the outcome of a demonstration of emergence.
-/

namespace Exemplar

/-! ## Requests -/

/-- How the attempt of a strategy ended. -/
inductive AttemptStatus where
  /-- The strategy has no candidate. -/
  | noCandidate
  /-- The candidate is not admissible. -/
  | rejected (verdict : String)
  /-- The candidate is not admissible, but better than nothing. -/
  | bestEffort (verdict : String)
  | accepted (verdict : String)
  /-- The strategy failed. -/
  | errored (message : String)
  deriving Inhabited, Repr, DecidableEq

namespace AttemptStatus

def success : AttemptStatus → Bool
  | .accepted _ => true
  | _ => false

def text : AttemptStatus → String
  | .noCandidate => "no candidate"
  | .rejected verdict => "rejected (" ++ verdict ++ ")"
  | .bestEffort verdict => "best effort (" ++ verdict ++ ")"
  | .accepted verdict => "accepted (" ++ verdict ++ ")"
  | .errored message => "error: " ++ message

end AttemptStatus

structure Attempt where
  strategy : String
  latency : Float
  status : AttemptStatus
  deriving Inhabited

def Attempt.text (a : Attempt) : String :=
  a.strategy ++ " " ++ Decimal.fixed 1 a.latency ++ "ms " ++ a.status.text

/-- A request as it went. -/
structure Entry where
  bucket : String
  attempts : List Attempt
  program : Option String
  strategy : Option String
  verified : Bool
  deriving Inhabited

namespace Entry

def solved (e : Entry) : Bool := e.program.isSome

/-- The time of all attempts in milliseconds. The sum starts from a negative zero, which changes no
other sum. -/
def totalLatency (e : Entry) : Float := e.attempts.foldl (fun sum a => sum + a.latency) (-0.0)

end Entry

/-! ## Counts -/

structure Tally where
  attempted : Nat
  solved : Nat
  verified : Nat
  strategyAttempts : Nat
  admitted : Nat
  duplicates : Nat
  deriving Inhabited, Repr, DecidableEq

namespace Tally

def zero : Tally := ⟨0, 0, 0, 0, 0, 0⟩

def solveRate (t : Tally) : Float := Record.rate t.solved t.attempted

def fields (t : Tally) : List (String × Nat) :=
  [("problems_attempted", t.attempted), ("problems_solved", t.solved),
    ("verified_solutions", t.verified), ("strategy_attempts", t.strategyAttempts),
    ("capabilities_admitted", t.admitted), ("duplicate_capabilities", t.duplicates)]

end Tally

/-! ## Capabilities -/

/-- The names of the primitives by their origin. -/
structure Capabilities where
  initial : List String
  learned : List String
  deriving Inhabited, Repr, DecidableEq

def Capabilities.total (c : Capabilities) : Nat := c.initial.length + c.learned.length

/-- What became of a target when a curriculum was learned. -/
structure Emergence where
  target : String
  solvableBefore : Bool
  solvableAfter : Bool
  solutionBefore : Option String
  solutionAfter : Option String
  /-- The renderings of the curriculum's solutions. -/
  curriculum : List String
  admitted : Nat
  sizeBefore : Nat
  sizeAfter : Nat
  /-- The size after in relation to the size before. -/
  expansion : Float
  deriving Inhabited

namespace Emergence

/-- What stands for a solution that was not found. -/
def noSolution : String := "no solution"

/-- Whether the target became solvable. -/
def emerged (e : Emergence) : Bool := !e.solvableBefore && e.solvableAfter

/-- The lines of the steps of the curriculum, numbered from one. -/
def curriculumLines (e : Emergence) : List String :=
  e.curriculum.zipIdx.map (fun s => "curriculum " ++ toString (s.2 + 1) ++ ": " ++ s.1)

/-- The report, one statement a line. -/
def lines (e : Emergence) : List String :=
  ["target: " ++ e.target, "before: " ++ e.solutionBefore.getD noSolution] ++
    e.curriculumLines ++
    ["after: " ++ e.solutionAfter.getD noSolution,
      "registry: " ++ toString e.sizeBefore ++ " -> " ++ toString e.sizeAfter ++
        " primitives (expansion " ++ Decimal.fixed 3 e.expansion ++ ", " ++
        toString e.admitted ++ " admitted)"]

def text (e : Emergence) : String := "\n".intercalate e.lines

end Emergence

end Exemplar
