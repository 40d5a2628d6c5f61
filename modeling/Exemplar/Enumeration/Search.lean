import Exemplar.Error
import Exemplar.Terminal
import Std.Data.HashSet

/-!
# Enumeration

Programs are built in the order of their weighted size. The first level holds the terminals; each
later level applies every primitive to every combination of programs found before whose sizes add
up. Of programs with the same outputs on all examples only the first is kept. The search ends with
the first program that has the wanted type and outputs, or when a budget is used up.
-/

namespace Exemplar.Enumeration

/-- A program that was kept: its outputs on the examples stand for it in larger programs. -/
structure Entry where
  term : Term
  ty : Ty
  size : Nat
  outputs : List Value
  deriving Inhabited, Repr, DecidableEq

/-- What a search looks for and within which budgets. -/
structure Task where
  machine : Machine
  examples : List Example
  signature : Signature
  intConstants : List Int
  maxSize : Nat
  maxCandidates : Nat
  clock : Clock

def Task.target (k : Task) : List Value := k.examples.map Example.output

/-- Where a search stands. -/
structure State where
  /-- The programs kept on the finished levels, from size one on, in the order in which they were
  found. -/
  levels : Array (List Entry)
  /-- The programs kept on the present level. -/
  fresh : Array Entry
  /-- The outputs of all programs kept. -/
  seen : Std.HashSet (List Value)
  stats : Stats
  /-- How often the clock was read. -/
  readings : Nat

def State.start : State := ⟨#[], #[], ∅, .zero, 0⟩

/-- How a search ends. -/
inductive Ending where
  | found (entry : Entry)
  | stopped (reason : Exhaustion)
  deriving Inhabited, Repr, DecidableEq

/-- A search that has ended. -/
structure Halted where
  state : State
  ending : Ending

/-- A search that goes on, or has ended. -/
abbrev Step := Except Halted State

/-- The number of candidates between two readings of the clock. -/
def clockStride : Nat := 256

def checkClock (k : Task) (s : State) : Step :=
  let next := { s with readings := s.readings + 1 }
  if k.clock s.readings then .error ⟨next, .stopped .timeBudget⟩ else .ok next

def count (k : Task) (s : State) : Step :=
  if k.maxCandidates ≤ s.stats.candidates then .error ⟨s, .stopped .candidateLimit⟩
  else
    let next := { s with stats.candidates := s.stats.candidates + 1 }
    if next.stats.candidates % clockStride = 0 then checkClock k next else .ok next

/-- Takes in a candidate that has a value on every example. -/
def offer (k : Task) (e : Entry) (s : State) : Step := do
  let s ← count k s
  if s.seen.contains e.outputs then
    return { s with stats.pruned := s.stats.pruned + 1 }
  else
    let next := { s with
      seen := s.seen.insert e.outputs
      fresh := s.fresh.push e
      stats.retained := s.stats.retained + 1 }
    if e.ty = k.signature.ret ∧ e.outputs = k.target then throw ⟨next, .found e⟩
    else return next

/-- Drops a candidate that fails on an example. -/
def discard (k : Task) (s : State) : Step := do
  let s ← count k s
  return { s with stats.discarded := s.stats.discarded + 1 }

/-- Takes in or drops a terminal. -/
def considerTerminal (k : Task) (s : State) (t : Terminal) : Step :=
  match k.examples.mapM (fun ex => k.machine.eval t.term ex.inputs) with
  | .ok outputs => offer k ⟨t.term, t.ty, 1, outputs⟩ s
  | .error _ => discard k s

/-- Applies a primitive to the rows of a number of columns, from the top. -/
def applyRows (m : Machine) (id : PrimId) : (rows : Nat) → (columns : List (List Value)) →
    Result (List Value)
  | 0, _ => .ok []
  | rows + 1, columns => do
    let v ← m.apply id (columns.filterMap List.head?)
    let vs ← applyRows m id rows (columns.map List.tail)
    return v :: vs

/-- Takes in or drops the application of a primitive to programs kept before. -/
def considerApplication (k : Task) (size : Nat) (p : Primitive) (args : List Entry) (s : State) :
    Step :=
  match applyRows k.machine p.id k.examples.length (args.map Entry.outputs) with
  | .ok outputs => offer k ⟨.apply p.id (args.map Entry.term), p.signature.ret, size, outputs⟩ s
  | .error _ => discard k s

/-- Visits every combination of members of the pools, the last pool varying fastest; `chosen` holds
the members of earlier pools in reverse order. -/
def forTuples (visit : List Entry → State → Step) : List (List Entry) → List Entry → State → Step
  | [], chosen, s => visit chosen.reverse s
  | pool :: pools, chosen, s => pool.foldlM (fun s e => forTuples visit pools (e :: chosen) s) s

/-- The lists of `parts` positive numbers with sum `total`, in lexicographic order. -/
def compositions : (parts total : Nat) → List (List Nat)
  | 0, 0 => [[]]
  | 0, _ + 1 => []
  | 1, 0 => []
  | 1, total + 1 => [[total + 1]]
  | parts + 2, total =>
    (List.range (total - (parts + 1))).flatMap
      (fun i => (compositions (parts + 1) (total - (i + 1))).map ((i + 1) :: ·))

/-- The programs of a type and a size among those of finished levels. -/
def pool (levels : Array (List Entry)) (ty : Ty) (size : Nat) : List Entry :=
  (levels[size - 1]?.getD []).filter (fun e => e.ty = ty)

/-- Applies a primitive to all arguments whose sizes are the members of a composition. -/
def composeSplit (k : Task) (levels : Array (List Entry)) (size : Nat) (p : Primitive) (s : State)
    (split : List Nat) : Step :=
  let pools := List.zipWith (pool levels) p.signature.params split
  if pools.any List.isEmpty then .ok s
  else forTuples (considerApplication k size p) pools [] s

/-- Builds all applications of a primitive of a size. -/
def compose (k : Task) (levels : Array (List Entry)) (size : Nat) (s : State) (p : Primitive) :
    Step :=
  let cost := max p.cost 1
  if size < cost then .ok s
  else (compositions p.arity (size - cost)).foldlM (composeSplit k levels size p) s

def State.finishLevel (s : State) (size : Nat) : State :=
  { s with
    levels := s.levels.push s.fresh.toList
    fresh := #[]
    stats.levels := size }

/-- The level of the terminals. -/
def firstLevel (k : Task) (s : State) : Step := do
  let s ← (Terminal.all k.machine.table k.signature.params k.intConstants).foldlM
    (considerTerminal k) s
  return s.finishLevel 1

/-- The level of a size above one; the clock is read at its end. -/
def level (k : Task) (size : Nat) (s : State) : Step := do
  let s ← k.machine.table.toList.foldlM (compose k s.levels size) s
  checkClock k (s.finishLevel size)

/-- A number of levels from a size on. -/
def levelsFrom (k : Task) : (number size : Nat) → State → Step
  | 0, _, s => .ok s
  | number + 1, size, s => do
    let s ← level k size s
    levelsFrom k number (size + 1) s

def search (k : Task) : Halted :=
  match (do levelsFrom k (k.maxSize - 1) 2 (← firstLevel k .start) : Step) with
  | .error halted => halted
  | .ok s => ⟨s, .stopped .maxSize⟩

/-- A program that solves a problem, with its weighted size. -/
structure Solution where
  term : Term
  size : Nat
  deriving Inhabited, Repr, DecidableEq

/-- What an enumeration returns. -/
structure Outcome where
  solution : Option Solution
  stats : Stats
  deriving Inhabited, Repr, DecidableEq

def Halted.outcome (h : Halted) : Outcome :=
  match h.ending with
  | .found e => ⟨some ⟨e.term, e.size⟩, h.state.stats⟩
  | .stopped reason => ⟨none, { h.state.stats with exhaustedBy := some reason }⟩

/-- The budgets and constants of an enumeration. -/
structure Bounds where
  intConstants : List Int
  maxSize : Nat
  maxCandidates : Nat
  clock : Clock

def Bounds.ofSettings (s : Settings) (clock : Clock) : Bounds :=
  ⟨s.intConstants, s.maxSize, s.maxCandidates, clock⟩

/-- Looks for the smallest program that reproduces the examples. -/
def run (m : Machine) (b : Bounds) (examples : List Example) : Except Error Outcome := do
  let signature ← Error.lift .problem (Problem.signature examples)
  if m.table.size = 0 then throw .emptyTable
  else if b.maxSize = 0 then throw .zeroMaxSize
  else
    return (search ⟨m, examples, signature, b.intConstants, b.maxSize, b.maxCandidates,
      b.clock⟩).outcome

end Exemplar.Enumeration
