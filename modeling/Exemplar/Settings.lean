import Exemplar.Clock
import Exemplar.Decimal.Shortest
import Exemplar.Eval

/-!
# Settings

What steers the searches, the verification and the bookkeeping of a session. Settings are valid if
every budget is positive, every rate is a probability and the selection fits into the population.
-/

namespace Exemplar

/-- Everything that can be set for a synthesis. -/
structure Settings where
  /-- The greatest weighted size that is enumerated. -/
  maxSize : Nat
  /-- The greatest depth of a tree that evolves. -/
  maxDepth : Nat
  /-- The number of individuals in a generation. -/
  populationSize : Nat
  /-- The greatest number of generations. -/
  generations : Nat
  /-- The probability that an offspring is mutated. -/
  mutationRate : Float
  /-- The probability that two parents are recombined. -/
  crossoverRate : Float
  /-- The number of individuals that compete to be a parent. -/
  tournamentSize : Nat
  /-- The number of individuals that survive unchanged. -/
  elitismCount : Nat
  /-- The time for one attempt of a strategy. -/
  timeBudget : Duration
  /-- The greatest number of branch assignments that are explored. -/
  pathBudget : Nat
  fixCap : Nat
  seed : Nat
  /-- The integers that programs may name. -/
  intConstants : List Int
  /-- The greatest number of candidates that are enumerated. -/
  maxCandidates : Nat
  /-- The probability that the least tried strategy goes first. -/
  explorationRate : Float
  /-- The greatest number of probe tuples. -/
  probeLimit : Nat
  /-- Whether a program that is not exact is better than none. -/
  bestEffort : Bool
  /-- The greatest number of remembered requests and outcomes. -/
  maxRecords : Nat
  deriving Inhabited

inductive SettingsError where
  | notPositive (name : String)
  | rateOutOfRange (name : String) (rate : Float)
  | tooManySurvivors (count population : Nat)
  | tournamentTooLarge (size population : Nat)
  deriving Inhabited

def SettingsError.message : SettingsError → String
  | .notPositive name => name ++ " must be positive"
  | .rateOutOfRange name rate => name ++ " must lie in [0, 1], got " ++ Decimal.plain rate
  | .tooManySurvivors count population =>
    "elitism_count (" ++ toString count ++ ") must be below population_size (" ++
      toString population ++ ")"
  | .tournamentTooLarge size population =>
    "tournament_size (" ++ toString size ++ ") exceeds population_size (" ++
      toString population ++ ")"

namespace Settings

/-- The settings where nothing is set. -/
def standard : Settings where
  maxSize := 7
  maxDepth := 3
  populationSize := 64
  generations := 40
  mutationRate := 0.3
  crossoverRate := 0.8
  tournamentSize := 4
  elitismCount := 2
  timeBudget := .ofSeconds 2
  pathBudget := 64
  fixCap := 100
  seed := 42
  intConstants := [0, 1, 2]
  maxCandidates := 2000000
  explorationRate := 0.1
  probeLimit := 64
  bestEffort := false
  maxRecords := 256

def limits (s : Settings) : Limits := { Limits.standard with fixCap := s.fixCap }

/-- The budgets that must be positive, in the order in which they are checked. -/
def budgets (s : Settings) : List (String × Nat) :=
  [("max_size", s.maxSize), ("max_depth", s.maxDepth), ("population_size", s.populationSize),
    ("generations", s.generations), ("tournament_size", s.tournamentSize),
    ("path_exploration_budget", s.pathBudget), ("fix_iteration_cap", s.fixCap),
    ("max_candidates", s.maxCandidates), ("probe_limit", s.probeLimit),
    ("max_tracked_records", s.maxRecords), ("time_budget_per_strategy", s.timeBudget.nanos)]

/-- The rates that must be probabilities, in the order in which they are checked. -/
def rates (s : Settings) : List (String × Float) :=
  [("mutation_rate", s.mutationRate), ("crossover_rate", s.crossoverRate),
    ("exploration_rate", s.explorationRate)]

def isProbability (rate : Float) : Bool := 0.0 ≤ rate && rate ≤ 1.0

/-- The first thing that is wrong with the settings. -/
def fault? (s : Settings) : Option SettingsError :=
  match s.budgets.find? (fun b => b.2 == 0), s.rates.find? (fun r => !isProbability r.2) with
  | some (name, _), _ => some (.notPositive name)
  | none, some (name, rate) => some (.rateOutOfRange name rate)
  | none, none =>
    if s.populationSize ≤ s.elitismCount then
      some (.tooManySurvivors s.elitismCount s.populationSize)
    else if s.populationSize < s.tournamentSize then
      some (.tournamentTooLarge s.tournamentSize s.populationSize)
    else none

/-- Whether the settings are valid, or what is wrong with them. -/
def validate (s : Settings) : Except SettingsError Unit :=
  match s.fault? with
  | some e => .error e
  | none => .ok ()

end Settings

/-! ## Overrides -/

/-- Settings of a single request that replace those of the session. -/
structure Overrides where
  maxSize : Option Nat
  maxDepth : Option Nat
  timeBudget : Option Duration
  bestEffort : Option Bool
  deriving Inhabited, Repr, DecidableEq

def Overrides.empty : Overrides := ⟨none, none, none, none⟩

def Settings.override (s : Settings) (o : Overrides) : Settings :=
  { s with
    maxSize := o.maxSize.getD s.maxSize
    maxDepth := o.maxDepth.getD s.maxDepth
    timeBudget := o.timeBudget.getD s.timeBudget
    bestEffort := o.bestEffort.getD s.bestEffort }

end Exemplar
