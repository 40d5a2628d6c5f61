import Exemplar.Error
import Exemplar.Evolution.Population
import Exemplar.Random.ChaCha

/-!
# Evolution

A run grows a first population and replaces it by the next one until an individual satisfies all
examples, the generations are used up, or the time is. The best individual ever seen is kept beside
the population.
-/

namespace Exemplar.Evolution

/-- A generation in numbers. -/
structure Summary where
  generation : Nat
  best : Float
  mean : Float
  bestSize : Nat
  deriving Inhabited

def Summary.ofPopulation (generation : Nat) (p : Population) : Summary :=
  match p.best? with
  | some b => ⟨generation, b.fitness.score, p.mean, b.fitness.size⟩
  | none => ⟨generation, 0.0, p.mean, 0⟩

inductive Termination where
  | perfect
  | generationLimit
  | timeBudget
  deriving Inhabited, Repr, DecidableEq

/-- What a run returns. -/
structure Outcome where
  /-- The best individual ever seen. -/
  best : Individual
  /-- The number of populations after the first one. -/
  generations : Nat
  history : List Summary
  termination : Termination
  deriving Inhabited

def Outcome.perfect (o : Outcome) : Bool := o.best.fitness.perfect

/-- Where a run stands. -/
structure State (σ : Type) where
  generation : Nat
  population : Population
  best : Individual
  /-- The summaries of all generations, the latest first. -/
  history : List Summary
  source : σ

/-- The run as it stands, ended for a reason. -/
def State.finish {σ : Type} (s : State σ) (termination : Termination) : Outcome :=
  ⟨s.best, s.generation, s.history.reverse, termination⟩

variable {σ : Type} [RandomSource σ]

/-- The run one generation later. -/
def advance (c : Context) (s : State σ) : State σ :=
  let (population, source) := (nextPopulation c s.population).run s.source
  let generation := s.generation + 1
  { generation
    population
    best := match population.best? with
      | some b => Population.fitter s.best b
      | none => s.best
    history := Summary.ofPopulation generation population :: s.history
    source }

/-- Runs on for at most a number of generations. The clock is read before each. -/
def runFrom (c : Context) (clock : Clock) : (left : Nat) → State σ → Outcome
  | 0, s => s.finish (if s.best.fitness.perfect then .perfect else .generationLimit)
  | left + 1, s =>
    if s.best.fitness.perfect then s.finish .perfect
    else if clock s.generation then s.finish .timeBudget
    else runFrom c clock left (advance c s)

/-- Evolves a program for a problem with the words of a source. -/
def evolve (t : Table) (s : Settings) (clock : Clock) (examples : List Example) (source : σ) :
    Except Error Outcome := do
  Error.lift .settings s.validate
  let signature ← Error.lift .problem (Problem.signature examples)
  if t.size = 0 then throw .emptyTable
  else
    let c := Context.ofProblem t s signature.params examples
    let (population, source) := (firstPopulation c signature.ret).run source
    match population.best? with
    | none => throw (.noProducer signature.ret)
    | some best =>
      return runFrom c clock s.generations
        ⟨0, population, best, [.ofPopulation 0 population], source⟩

/-- Evolves a program for a problem with the source of the settings' seed. -/
def run (t : Table) (s : Settings) (clock : Clock) (examples : List Example) :
    Except Error Outcome :=
  evolve t s clock examples (ChaCha.ofSeed s.seed)

end Exemplar.Evolution
