import Exemplar.Evolution.Fitness
import Exemplar.Evolution.Variation
import Exemplar.Settings

/-!
# Populations

A population is a row of programs with their fitness. The first one is grown at random; each later
one keeps the best of the one before and fills up with offspring of parents that won a tournament.
-/

namespace Exemplar

/-- A program with its fitness. -/
structure Individual where
  term : Term
  fitness : Fitness
  deriving Inhabited, Repr, DecidableEq

/-- The individuals of a generation. -/
abbrev Population := Array Individual

namespace Population

/-- The better of two individuals, the first one if they are equally fit. -/
def fitter (a b : Individual) : Individual := if b.fitness.better a.fitness then b else a

/-- The best individual; the earliest of equally fit ones. -/
def best? (p : Population) : Option Individual :=
  match p.toList with
  | [] => none
  | first :: rest => some (rest.foldl fitter first)

def mean (p : Population) : Float :=
  if p.isEmpty then 0.0
  else p.foldl (fun sum i => sum + i.fitness.score) 0.0 / Float.ofNat p.size

def ranked (p : Population) : Population :=
  (Fitness.sortBestFirst Individual.fitness p.toList).toArray

end Population

namespace Evolution

/-- What a run refers to. -/
structure Context where
  settings : Settings
  vocabulary : Vocabulary
  machine : Machine
  examples : List Example

def Context.ofProblem (t : Table) (s : Settings) (inputs : List Ty) (examples : List Example) :
    Context :=
  ⟨s, .ofProblem t inputs s.intConstants, t.machine s.limits, examples⟩

def Context.individual (c : Context) (e : Term) : Individual :=
  ⟨e, Fitness.evaluate c.machine c.examples e⟩

variable {σ : Type} [RandomSource σ]

/-! ## The first population -/

/-- The depth and the method of an attempt to grow a tree: depths go round, methods alternate. -/
def ramp (maxDepth attempt : Nat) : Nat × Growth :=
  (1 + attempt % max maxDepth 1, if attempt % 2 = 0 then .grow else .full)

/-- Grows trees from an attempt on until the population is complete or no attempts are left. -/
def growTrees (c : Context) (output : Ty) :
    (left attempt : Nat) → Population → Draw σ Population
  | 0, _, p => return p
  | left + 1, attempt, p =>
    if c.settings.populationSize ≤ p.size then return p
    else do
      let (depth, method) := ramp c.settings.maxDepth attempt
      match ← c.vocabulary.tree method depth output with
      | some e => growTrees c output left (attempt + 1) (p.push (c.individual e))
      | none => growTrees c output left (attempt + 1) p

/-- An individual among the first `n` of a population. -/
def anyOf (p : Population) (n : Nat) : Draw σ Individual :=
  return p.getD (← Random.below64 n) default

/-- Adds a number of copies of individuals that were there from the start. -/
def pad (start : Population) : (missing : Nat) → Population → Draw σ Population
  | 0, p => return p
  | missing + 1, p => do pad start missing (p.push (← anyOf start start.size))

/-- The first population. Four attempts are made for each individual; if they yield some trees but
too few, copies fill the population up. -/
def firstPopulation (c : Context) (output : Ty) : Draw σ Population := do
  let size := c.settings.populationSize
  let grown ← growTrees c output (size * 4) 0 #[]
  if grown.isEmpty then return grown else pad grown (size - grown.size) grown

/-! ## The next population -/

/-- Whether a challenger takes the place of a winner: it is fitter, or equally fit and earlier. -/
def beats (p : Population) (challenger winner : Nat) : Bool :=
  let f := (p.getD challenger default).fitness
  let g := (p.getD winner default).fitness
  f.better g || (challenger < winner && f == g)

/-- The winner against a number of further challengers. -/
def duel (p : Population) : (challengers winner : Nat) → Draw σ Nat
  | 0, winner => return winner
  | n + 1, winner => do
    let challenger ← Random.below64 p.size
    duel p n (if beats p challenger winner then challenger else winner)

/-- The best of some individuals drawn at random. -/
def tournament (c : Context) (p : Population) : Draw σ Individual := do
  let first ← Random.below64 p.size
  return p.getD (← duel p (c.settings.tournamentSize - 1) first) default

/-- The kind of a mutation. -/
def anyMutation : Draw σ Mutation :=
  return (← Random.choose Mutation.all).getD .point

/-- A child as an individual, perhaps mutated. One that is too deep is replaced by its parent. -/
def mature (c : Context) (parent : Individual) (child : Term) : Draw σ Individual := do
  let mutated ← Random.chance c.settings.mutationRate
  let e ← if mutated then do
      c.vocabulary.mutate c.settings.maxDepth child (← anyMutation)
    else pure child
  return if c.settings.maxDepth < e.depth then parent else c.individual e

/-- Two parents with a child of each. -/
structure Litter where
  first : Individual
  second : Individual
  children : Term × Term

/-- Selects two parents and recombines them, or takes copies of them. -/
def litter (c : Context) (p : Population) : Draw σ Litter := do
  let a ← tournament c p
  let b ← tournament c p
  let recombined ← Random.chance c.settings.crossoverRate
  let children ← if recombined then c.vocabulary.crossover a.term b.term
    else pure (a.term, b.term)
  return ⟨a, b, children⟩

/-- A number of offspring. Of the last litter of an odd number only the first child is taken. -/
def breed (c : Context) (p : Population) : Nat → Draw σ (List Individual)
  | 0 => return []
  | 1 => do
    let l ← litter c p
    return [← mature c l.first l.children.1]
  | n + 2 => do
    let l ← litter c p
    let x ← mature c l.first l.children.1
    let y ← mature c l.second l.children.2
    return x :: y :: (← breed c p n)

/-- The population that follows a population. -/
def nextPopulation (c : Context) (p : Population) : Draw σ Population := do
  let parents := p.ranked
  let kept := parents.toList.take c.settings.elitismCount
  return (kept ++ (← breed c parents (p.size - kept.length))).toArray

end Evolution

end Exemplar
