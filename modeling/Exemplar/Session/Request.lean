import Exemplar.Session.Basic

/-!
# Requests

A request asks for a program that reproduces examples. The strategies are tried in the order in
which the learner ranks them, until a candidate is accepted. The learner is told of each attempt,
and the journal of the request.
-/

namespace Exemplar

/-- A request and what it refers to. -/
structure Request where
  settings : Settings
  /-- Whether candidates are verified. Otherwise the strategies' word is taken. -/
  verify : Bool
  table : Table
  examples : List Example
  features : Features

namespace Request

def program (q : Request) (strategy : String) (c : Candidate) : Program where
  term := c.term
  size := c.size
  signature := q.features.signature
  strategy
  certificate :=
    if q.verify then
      some (Verification.verify q.table q.settings q.features.signature q.examples c.term)
    else none
  table := q.table
  limits := q.settings.limits

def accepts (c : Candidate) (p : Program) : Bool :=
  match p.certificate with
  | some certificate => certificate.admissible
  | none => c.exact

def statusOf (q : Request) (c : Candidate) (p : Program) : AttemptStatus :=
  if accepts c p then .accepted p.verdict
  else if q.settings.bestEffort then .bestEffort p.verdict
  else .rejected p.verdict

/-- The status of what a strategy returned, and its program if there is one. -/
def judge (q : Request) (strategy : String) :
    Except Error Candidate → AttemptStatus × Option Program
  | .error e =>
    (if e.kind = .synthesisExhausted then .noCandidate else .errored e.message, none)
  | .ok c =>
    let p := q.program strategy c
    (q.statusOf c p, some p)

end Request

/-- The attempts on a request so far. -/
structure Trials where
  attempts : List Attempt
  accepted : Option Program
  /-- The first program that is better than nothing. -/
  fallback : Option Program
  deriving Inhabited

namespace Trials

def none : Trials := ⟨[], .none, .none⟩

/-- The trials with one more attempt and its program. -/
def add (t : Trials) (a : Attempt) (p : Option Program) : Trials :=
  { attempts := t.attempts ++ [a]
    accepted := match a.status with
      | .accepted _ => p
      | _ => t.accepted
    fallback := match a.status with
      | .bestEffort _ => t.fallback.or p
      | _ => t.fallback }

/-- The program to return: the one that was accepted, or else the fallback. -/
def answer (t : Trials) : Option Program := t.accepted.or t.fallback

end Trials

namespace Session

/-- Has a strategy make an attempt, which is counted, and tells the learner of it. -/
def attemptWith (q : Request) (strategy : Strategy) (t : Trials) : Op Trials := do
  let s ← get
  let n := s.tally.strategyAttempts
  let outcome :=
    strategy.attempt (s.timing.clock n q.settings.timeBudget) q.table q.settings q.examples
  let (status, program) := q.judge strategy.name outcome
  let latency := s.timing.latency n
  set { s with tally.strategyAttempts := n + 1 }
  -- a learner that does not know the strategy would end the request here
  let learner ← Op.of (s.learner.record strategy.name q.features.bucket status.success latency)
  modify fun s => { s with learner }
  return t.add ⟨strategy.name, latency.milliseconds, status⟩ program

/-- Tries strategies in an order until a candidate is accepted. -/
def pursue (q : Request) : List String → Trials → Op Trials
  | [], t => return t
  | name :: rest, t => do
    match (← get).strategy? name with
    | none => pursue q rest t
    | some strategy =>
      let t ← attemptWith q strategy t
      if t.accepted.isSome then return t else pursue q rest t

def countAnswer (answer : Option Program) (t : Tally) : Tally :=
  match answer with
  | none => t
  | some p =>
    { t with
      solved := t.solved + 1
      verified := if p.verified then t.verified + 1 else t.verified }

def entryOf (q : Request) (t : Trials) : Entry where
  bucket := q.features.bucket.text
  attempts := t.attempts
  program := t.answer.map Program.rendering
  strategy := t.answer.map Program.strategy
  verified := match t.answer with
    | some p => p.verified
    | none => false

/-- Counts the answer of a request and enters the request into the journal. -/
def close (q : Request) (t : Trials) : Op (Option Program) := do
  modify (fun s => { s with
    tally := countAnswer t.answer s.tally
    history := Recent.push s.settings.maxRecords s.history (entryOf q t) })
  return t.answer

/-- Has the learner rank the strategies and counts the request. -/
def start (q : Request) : Op (List String) := do
  let s ← get
  let (order, learner) := s.learner.rank q.features.bucket
  set { s with learner, tally.attempted := s.tally.attempted + 1 }
  return order

def answer (q : Request) : Op (Option Program) := do
  let order ← start q
  let trials ← pursue q order .none
  close q trials

/-- Answers a request for a program over a table, if the settings and the examples are valid. -/
def request (settings : Settings) (verify : Bool) (table : Table) (examples : List Example) :
    Op (Option Program) := do
  Op.of (Error.lift .settings settings.validate)
  let features ← Op.of (Error.lift .problem (Features.ofExamples examples))
  answer ⟨settings, verify, table, examples, features⟩

/-- Solves a problem under the settings of the session. -/
def solve (examples : List Example) (verify : Bool) : Op (Option Program) := do
  let s ← get
  request s.settings verify s.catalog.table examples

/-- Solves a problem with verification, under overridden settings. -/
def synthesize (examples : List Example) (o : Overrides) : Op (Option Program) := do
  let s ← get
  request (s.settings.override o) true s.catalog.table examples

end Session

end Exemplar
