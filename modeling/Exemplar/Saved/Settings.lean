import Exemplar.Json.Form
import Exemplar.Settings

/-!
# Saved settings

The JSON form of settings and of overrides. Every field may be left out, and then has its standard
value; a time budget has its two parts and nothing else.
-/

namespace Exemplar

namespace Duration

def toJson (d : Duration) : Json :=
  .obj [("secs", .nat d.seconds), ("nanos", .nat d.subsecond)]

/-- Whether a value has no members other than these. -/
def onlyMembers (names : List String) : Json → Bool
  | .obj members => members.all (fun m => names.contains m.1)
  | _ => true

def ofJson? (j : Json) : Option Duration := do
  let fs ← j.fields? ["secs", "nanos"]
  if onlyMembers ["secs", "nanos"] j then
    ofParts? (← fs.required? "secs" Json.count?) (← fs.required? "nanos" Json.index?)
  else none

/-- How a span of time stands in a text. -/
def form : Json.Scan.Form (Nat × Nat) Duration where
  name := "Duration"
  fields :=
    [("secs", fun d => return (← Json.Scan.numeric "u64" Json.count?, d.2)),
      ("nanos", fun d => return (d.1, ← Json.Scan.numeric "u32" Json.index?))]
  strict := true
  finish d :=
    match ofParts? d.1 d.2 with
    | some span => .ok span
    | none => .error (.overflow "Duration")

end Duration

namespace Settings

def fieldNames : List String :=
  ["max_size", "max_depth", "population_size", "generations", "mutation_rate", "crossover_rate",
    "tournament_size", "elitism_count", "time_budget_per_strategy", "path_exploration_budget",
    "fix_iteration_cap", "seed", "int_constants", "max_candidates", "exploration_rate",
    "probe_limit", "best_effort", "max_tracked_records"]

def toJson (s : Settings) : Json :=
  .obj [("max_size", .nat s.maxSize), ("max_depth", .nat s.maxDepth),
    ("population_size", .nat s.populationSize), ("generations", .nat s.generations),
    ("mutation_rate", .float s.mutationRate), ("crossover_rate", .float s.crossoverRate),
    ("tournament_size", .nat s.tournamentSize), ("elitism_count", .nat s.elitismCount),
    ("time_budget_per_strategy", s.timeBudget.toJson),
    ("path_exploration_budget", .nat s.pathBudget), ("fix_iteration_cap", .nat s.fixCap),
    ("seed", .nat s.seed), ("int_constants", .ofList .int s.intConstants),
    ("max_candidates", .nat s.maxCandidates), ("exploration_rate", .float s.explorationRate),
    ("probe_limit", .nat s.probeLimit), ("best_effort", .bool s.bestEffort),
    ("max_tracked_records", .nat s.maxRecords)]

/-- The settings of a saved form; `base` has the values of absent fields. -/
def ofJson? (base : Settings) (j : Json) : Option Settings := do
  let fs ← j.fields? fieldNames
  return {
    maxSize := ← fs.orDefault? "max_size" Json.count? base.maxSize
    maxDepth := ← fs.orDefault? "max_depth" Json.count? base.maxDepth
    populationSize := ← fs.orDefault? "population_size" Json.count? base.populationSize
    generations := ← fs.orDefault? "generations" Json.count? base.generations
    mutationRate := ← fs.orDefault? "mutation_rate" Json.float? base.mutationRate
    crossoverRate := ← fs.orDefault? "crossover_rate" Json.float? base.crossoverRate
    tournamentSize := ← fs.orDefault? "tournament_size" Json.count? base.tournamentSize
    elitismCount := ← fs.orDefault? "elitism_count" Json.count? base.elitismCount
    timeBudget := ← fs.orDefault? "time_budget_per_strategy" Duration.ofJson? base.timeBudget
    pathBudget := ← fs.orDefault? "path_exploration_budget" Json.count? base.pathBudget
    fixCap := ← fs.orDefault? "fix_iteration_cap" Json.count? base.fixCap
    seed := ← fs.orDefault? "seed" Json.count? base.seed
    intConstants := ← fs.orDefault? "int_constants" (Json.list? Json.word?) base.intConstants
    maxCandidates := ← fs.orDefault? "max_candidates" Json.count? base.maxCandidates
    explorationRate := ← fs.orDefault? "exploration_rate" Json.float? base.explorationRate
    probeLimit := ← fs.orDefault? "probe_limit" Json.count? base.probeLimit
    bestEffort := ← fs.orDefault? "best_effort" Json.bool? base.bestEffort
    maxRecords := ← fs.orDefault? "max_tracked_records" Json.count? base.maxRecords }

/-- How settings stand in a text. -/
def form : Json.Scan.Form Settings Settings where
  name := "SynthesisConfig"
  fields :=
    let size := Json.Scan.numeric "usize" Json.count?
    let rate := Json.Scan.numeric "f64" Json.float?
    [("max_size", fun s => return { s with maxSize := ← size }),
      ("max_depth", fun s => return { s with maxDepth := ← size }),
      ("population_size", fun s => return { s with populationSize := ← size }),
      ("generations", fun s => return { s with generations := ← size }),
      ("mutation_rate", fun s => return { s with mutationRate := ← rate }),
      ("crossover_rate", fun s => return { s with crossoverRate := ← rate }),
      ("tournament_size", fun s => return { s with tournamentSize := ← size }),
      ("elitism_count", fun s => return { s with elitismCount := ← size }),
      ("time_budget_per_strategy", fun s =>
        return { s with timeBudget := ← Duration.form.read (0, 0) }),
      ("path_exploration_budget", fun s => return { s with pathBudget := ← size }),
      ("fix_iteration_cap", fun s => return { s with fixCap := ← size }),
      ("seed", fun s => return { s with seed := ← Json.Scan.numeric "u64" Json.count? }),
      ("int_constants", fun s =>
        return { s with
          intConstants := ← Json.Scan.list (Json.Scan.numeric "i64" Json.word?) }),
      ("max_candidates", fun s => return { s with maxCandidates := ← size }),
      ("exploration_rate", fun s => return { s with explorationRate := ← rate }),
      ("probe_limit", fun s => return { s with probeLimit := ← size }),
      ("best_effort", fun s => return { s with bestEffort := ← Json.Scan.bool }),
      ("max_tracked_records", fun s => return { s with maxRecords := ← size })]
  strict := false
  finish := .ok

/-- Why a text holds no usable settings. -/
inductive TextError where
  | unreadable (fault : Json.Fault)
  | invalid (error : SettingsError)
  deriving Inhabited

/-- The valid settings that a text holds. -/
def ofText (text : String) : Except TextError Settings :=
  match (form.read standard).readText text with
  | .error fault => .error (.unreadable fault)
  | .ok s =>
    match s.fault? with
    | some e => .error (.invalid e)
    | none => .ok s

end Settings

namespace Overrides

def fieldNames : List String :=
  ["max_size", "max_depth", "time_budget_per_strategy", "best_effort"]

def toJson (o : Overrides) : Json :=
  .obj [("max_size", .ofOption .nat o.maxSize), ("max_depth", .ofOption .nat o.maxDepth),
    ("time_budget_per_strategy", .ofOption Duration.toJson o.timeBudget),
    ("best_effort", .ofOption .bool o.bestEffort)]

def ofJson? (j : Json) : Option Overrides := do
  let fs ← j.fields? fieldNames
  return {
    maxSize := ← fs.orDefault? "max_size" (Json.nullable? Json.count?) none
    maxDepth := ← fs.orDefault? "max_depth" (Json.nullable? Json.count?) none
    timeBudget := ←
      fs.orDefault? "time_budget_per_strategy" (Json.nullable? Duration.ofJson?) none
    bestEffort := ← fs.orDefault? "best_effort" (Json.nullable? Json.bool?) none }

end Overrides

end Exemplar
