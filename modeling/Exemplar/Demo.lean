import Exemplar.Json.Writer
import Exemplar.Saved.Session
import Exemplar.Saved.Settings
import Exemplar.Session.Expansion

/-!
# The demonstration

A run through everything that a session does, told line by line: some problems are solved, the
emergence of capabilities is shown, and what the session has learned is summed up.
-/

namespace Exemplar.Demo

/-! ## Lines -/

/-- The heading of a phase, after an empty line. -/
def heading (title : String) : List String :=
  ["", " ── " ++ title ++ " " ++ Text.copies (60 - (title.utf8ByteSize + 4)) '─']

def good (s : String) : String := "   [OK]  " ++ s

def note (s : String) : String := "   [--]  " ++ s

def bad (s : String) : String := "   [!!]  " ++ s

/-- The lines about a failure that ends the demonstration. -/
def fatal (s : String) : List String := ["", "   [FATAL]  Demo failed: " ++ s]

/-! ## Problems -/

structure Showcase where
  name : String
  examples : List Example
  deriving Inhabited

/-- The examples of a function on the numbers from zero up to a bound. -/
def tabulate (bound : Nat) (f : Int → Int) : List Example :=
  (List.range bound).map (fun n : Nat => ⟨[.int n], .int (f n)⟩)

def showcases : List Showcase :=
  [⟨"successor", tabulate 3 (fun x => x + 1)⟩,
    ⟨"doubling", tabulate 5 (fun x => 2 * x)⟩,
    ⟨"product plus one (zero divisors present)",
      [(6, 0), (2, 3), (4, 2), (0, 5), (3, 3), (5, 1)].map
        (fun p : Int × Int => ⟨[.int p.1, .int p.2], .int (p.1 * p.2 + 1)⟩)⟩,
    ⟨"list length plus one",
      [[], [4], [1, 2, 3], [9, 9]].map
        (fun xs : List Int => ⟨[.list xs], .int (xs.length + 1)⟩)⟩]

/-! ## The script -/

/-- A part of the demonstration: it works on a session and adds lines. -/
abbrev Script (α : Type) := ExceptT Error (StateM (Session × List String)) α

def say (lines : List String) : Script Unit := modify (fun s => (s.1, s.2 ++ lines))

/-- Performs an operation on the session. -/
def act {α : Type} (op : Session.Op α) : Script α := do
  let (s, lines) ← get
  let (r, s) := s.perform op
  set (s, lines)
  match r with
  | .ok a => return a
  | .error e => throw e

/-- Solves a problem and says how it went. -/
def present (k : Showcase) : Script (Option Program) := do
  let p ← act (Session.synthesize k.examples .empty)
  let name := Text.padRight 42 k.name
  match p with
  | some p => say [good (name ++ " " ++ p.text)]
  | none => say [bad (name ++ " no solution")]
  return p

def certificateLines (c : Certificate) : List String :=
  note "certificate of the last program:" :: c.lines.map (fun l => Text.copies 10 ' ' ++ l)

/-- Solves all problems and shows the last certificate. -/
def synthesis : Script Unit := do
  say (heading "Phase B: Synthesis")
  let answers ← showcases.mapM present
  match (answers.filterMap id).getLast?.bind Program.certificate with
  | some c => say (certificateLines c)
  | none => return ()

def emergence : Script Emergence := do
  say (heading "Phase C: Capability Emergence")
  let e ← act Session.demonstrate
  say (e.lines.map note)
  say [if e.emerged then good "target became solvable through learned capabilities"
    else bad "target did not change solvability"]
  return e

def summaryLine (t : TrackSummary) : String :=
  Text.padRight 12 t.strategy ++ " " ++ toString t.successes ++ " ok / " ++
    toString t.failures ++ " failed  mean " ++ Decimal.fixed 1 t.meanLatency ++ " ms"

def insightLines (i : Insights) : List String :=
  ["attempts=" ++ toString i.attempts ++ "  successful=" ++ toString i.successes ++
    "  success rate=" ++ Decimal.fixed 1 (i.successRate * 100.0) ++ "%"] ++
  i.strategies.map summaryLine ++
  i.preferred.map (fun p => "prefer " ++ Text.padRight 12 p.2 ++ " for " ++ p.1)

def sessionLines (s : Session) : List String :=
  ["problems " ++ toString s.tally.solved ++ "/" ++ toString s.tally.attempted ++ " solved (" ++
      toString s.tally.verified ++ " verified), " ++ toString s.tally.admitted ++
      " capabilities admitted",
    "learned: " ++ Text.commas s.capabilities.learned]

def review : Script Unit := do
  say (heading "Phase D: Meta-Learner and Metrics")
  let (s, _) ← get
  say ((insightLines s.insights ++ sessionLines s).map note)

/-- Everything that is done with a session, with the report of emergence at the end. -/
def script (stamp : Stamp) : Script Unit := do
  let (s, _) ← get
  say [good (toString s.capabilities.total ++ " primitives registered")]
  synthesis
  let e ← emergence
  review
  say ("" :: (e.toJson stamp).pretty)

/-! ## The whole demonstration -/

/-- What the demonstration says, and why it failed if it did. -/
structure Transcript where
  lines : List String
  failure : Option String
  deriving Inhabited

def readSettings (path text : String) : Except String Settings :=
  let context (e : Error) : String := "parsing config " ++ path ++ ": " ++ e.message
  match Settings.ofText text with
  | .ok s => .ok s
  | .error (.unreadable fault) => .error (context (.unreadableSettings fault))
  | .error (.invalid e) => .error (context (.settings e))

def settingsLine (s : Settings) : String :=
  "max_size=" ++ toString s.maxSize ++ "  max_depth=" ++ toString s.maxDepth ++
    "  population=" ++ toString s.populationSize ++ "x" ++ toString s.generations ++
    "  seed=" ++ toString s.seed

/-- The demonstration under settings, or under none that could be read. -/
def run (settings : Except String Settings) (stamp : Stamp) : Transcript :=
  let opening := heading "Phase A: Configuration"
  match settings with
  | .error message => ⟨opening, some message⟩
  | .ok s =>
    let opening := opening ++ [note (settingsLine s)]
    match Session.create s .instant with
    | .error e => ⟨opening, some ("building orchestrator: " ++ e.message)⟩
    | .ok session =>
      match (script stamp).run.run (session, opening) with
      | (.ok (), _, lines) => ⟨lines, none⟩
      | (.error e, _, lines) => ⟨lines, some e.message⟩

namespace Transcript

def errors (t : Transcript) : List String :=
  match t.failure with
  | some message => fatal message
  | none => []

def code (t : Transcript) : UInt32 := if t.failure.isSome then 1 else 0

end Transcript

end Exemplar.Demo
