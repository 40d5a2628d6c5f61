import Exemplar.Catalog
import Exemplar.Experience.Insights
import Exemplar.Session.Journal
import Exemplar.Session.Program
import Exemplar.Session.Strategy
import Exemplar.Text

/-!
# Sessions

A session keeps what outlives a request: the catalog of capabilities, the learner with what it knows
of the strategies, a journal and counts. An operation on it has an answer or an error, and leaves a
session behind in either case.
-/

namespace Exemplar

/-- How time passes in a session, attempt by attempt. -/
structure Timing where
  /-- The clock of an attempt for a time budget. -/
  clock : (attempt : Nat) → Duration → Clock
  /-- How long an attempt takes. -/
  latency : (attempt : Nat) → Duration

/-- Attempts that take a millisecond each and notice only budgets that are used up at once. -/
def Timing.instant : Timing := ⟨fun _ budget => budget.clock, fun _ => ⟨1000000⟩⟩

/-- What outlives a request. -/
structure Session where
  settings : Settings
  catalog : Catalog
  learner : Learner
  strategies : List Strategy
  /-- The latest requests, the oldest first. -/
  history : List Entry
  tally : Tally
  timing : Timing

namespace Session

/-- An operation on a session. -/
abbrev Op (α : Type) := ExceptT Error (StateM Session) α

/-- An answer or an error that does not depend on the session. -/
def Op.of {α : Type} : Except Error α → Op α
  | .ok a => pure a
  | .error e => throw e

/-- The answer or error of an operation, and the session that it leaves behind. -/
def perform {α : Type} (s : Session) (op : Op α) : Except Error α × Session := op.run.run s

/-! ## Strategies -/

/-- The session with a strategy, unless there is one of this name. -/
def addStrategy (s : Session) (strategy : Strategy) : Session :=
  if s.learner.knows strategy.name then s
  else
    { s with
      learner := s.learner.register strategy.name
      strategies := s.strategies ++ [strategy] }

def strategy? (s : Session) (name : String) : Option Strategy :=
  s.strategies.find? (fun k => k.name == name)

/-! ## New sessions -/

/-- The session before any strategy is added. -/
def bare (catalog : Catalog) (settings : Settings) (timing : Timing) : Session :=
  { settings
    catalog
    learner := Learner.ofSettings settings
    strategies := []
    history := []
    tally := .zero
    timing }

/-- A session over a catalog with the standard strategies. -/
def ofCatalog (catalog : Catalog) (settings : Settings) (timing : Timing) :
    Except Error Session := do
  Error.lift .settings settings.validate
  if catalog.size = 0 then throw .emptyTable
  else return Strategy.standard.foldl addStrategy (bare catalog settings timing)

/-- The catalog of all builtin operations under settings. -/
def standardCatalog (settings : Settings) : Catalog :=
  .ofBuiltins Builtin.all settings.probeLimit settings.limits

def create (settings : Settings) (timing : Timing) : Except Error Session :=
  ofCatalog (standardCatalog settings) settings timing

/-! ## Views -/

def capabilities (s : Session) : Capabilities :=
  ⟨s.catalog.names.take s.catalog.seeds, s.catalog.names.drop s.catalog.seeds⟩

def insights (s : Session) : Insights := s.learner.insights

def tallyText (t : Tally) : String :=
  "OrchestratorMetrics \x7b " ++
    Text.commas (t.fields.map (fun f => f.1 ++ ": " ++ toString f.2)) ++ " \x7d"

def text (s : Session) : String :=
  "Orchestrator \x7b primitives: " ++ toString s.catalog.size ++ ", strategies: [" ++
    Text.commas (s.strategies.map (fun k => Text.quoted k.name)) ++ "], metrics: " ++
    tallyText s.tally ++ " \x7d"

/-- The verification of a program under the settings of the session. -/
def verify (s : Session) (p : Program) (signature : Signature) (examples : List Example) :
    Certificate :=
  Verification.verify p.table s.settings signature examples p.term

end Session

end Exemplar
