import Exemplar.Json.Shape
import Exemplar.Saved.Stamp
import Exemplar.Session.Journal

/-!
# Saved journals

The JSON form of attempts, requests, counts, capabilities and reports of emergence. A saved request
and a saved report carry points in time, which must be well formed and are not kept.
-/

namespace Exemplar

/-- A point in time among the fields of a record. -/
def Json.Fields.stamp? (fs : Json.Fields) (name : String) : Option Unit :=
  fs.required? name (fun j => j.str?.bind (fun s => if Stamp.isText s then some () else none))

namespace AttemptStatus

def toJson : AttemptStatus → Json
  | .noCandidate => .str "NoCandidate"
  | .rejected verdict => .tagged "Rejected" (.obj [("verdict", .str verdict)])
  | .bestEffort verdict => .tagged "BestEffort" (.obj [("verdict", .str verdict)])
  | .accepted verdict => .tagged "Accepted" (.obj [("verdict", .str verdict)])
  | .errored message => .tagged "Errored" (.obj [("message", .str message)])

/-- The only field of an alternative, which is a text. -/
def text? (field : String) (content : Option Json) : Option String :=
  (Json.contentFields? [field] content).bind (fun fs => fs.required? field Json.str?)

def ofJson? (j : Json) : Option AttemptStatus := do
  match ← j.choice? with
  | ("NoCandidate", none) => return .noCandidate
  | ("NoCandidate", some .null) => return .noCandidate
  | ("Rejected", content) => return .rejected (← text? "verdict" content)
  | ("BestEffort", content) => return .bestEffort (← text? "verdict" content)
  | ("Accepted", content) => return .accepted (← text? "verdict" content)
  | ("Errored", content) => return .errored (← text? "message" content)
  | _ => none

end AttemptStatus

def Attempt.ofJson? (j : Json) : Option Attempt := do
  let fs ← j.fields? ["strategy", "latency_ms", "status"]
  return ⟨← fs.required? "strategy" Json.str?, ← fs.required? "latency_ms" Json.float?,
    ← fs.required? "status" AttemptStatus.ofJson?⟩

namespace Entry

def fieldNames : List String :=
  ["started_at", "completed_at", "bucket", "attempts", "program", "strategy", "verified"]

def ofJson? (j : Json) : Option Entry := do
  let fs ← j.fields? fieldNames
  fs.stamp? "started_at"
  fs.stamp? "completed_at"
  return {
    bucket := ← fs.required? "bucket" Json.str?
    attempts := ← fs.required? "attempts" (Json.list? Attempt.ofJson?)
    program := ← fs.optional? "program" Json.str?
    strategy := ← fs.optional? "strategy" Json.str?
    verified := ← fs.required? "verified" Json.bool? }

end Entry

namespace Tally

def toJson (t : Tally) : Json := .obj (t.fields.map (fun f => (f.1, .nat f.2)))

def ofJson? (j : Json) : Option Tally := do
  let fs ← j.fields? (zero.fields.map (·.1))
  return {
    attempted := ← fs.required? "problems_attempted" Json.count?
    solved := ← fs.required? "problems_solved" Json.count?
    verified := ← fs.required? "verified_solutions" Json.count?
    strategyAttempts := ← fs.required? "strategy_attempts" Json.count?
    admitted := ← fs.required? "capabilities_admitted" Json.count?
    duplicates := ← fs.required? "duplicate_capabilities" Json.count? }

end Tally

namespace Capabilities

def toJson (c : Capabilities) : Json :=
  .obj [("initial", .ofTexts c.initial), ("learned", .ofTexts c.learned)]

def ofJson? (j : Json) : Option Capabilities := do
  let fs ← j.fields? ["initial", "learned"]
  return ⟨← fs.required? "initial" (Json.list? Json.str?),
    ← fs.required? "learned" (Json.list? Json.str?)⟩

end Capabilities

namespace Emergence

def fieldNames : List String :=
  ["target", "solvable_before", "solvable_after", "solution_before", "solution_after",
    "curriculum", "capabilities_admitted", "registry_size_before", "registry_size_after",
    "expansion_ratio", "generated_at"]

/-- The members of a saved report, all but the point in time. -/
def members (e : Emergence) : List (String × Json) :=
  [("target", .str e.target), ("solvable_before", .bool e.solvableBefore),
    ("solvable_after", .bool e.solvableAfter),
    ("solution_before", .ofOption .str e.solutionBefore),
    ("solution_after", .ofOption .str e.solutionAfter), ("curriculum", .ofTexts e.curriculum),
    ("capabilities_admitted", .nat e.admitted), ("registry_size_before", .nat e.sizeBefore),
    ("registry_size_after", .nat e.sizeAfter), ("expansion_ratio", .float e.expansion)]

/-- The saved form of a report that was made at a point in time. -/
def toJson (stamp : Stamp) (e : Emergence) : Json :=
  .obj (e.members ++ [("generated_at", .str stamp.text)])

/-- The report of a saved form. -/
def ofJson? (j : Json) : Option Emergence := do
  let fs ← j.fields? fieldNames
  fs.stamp? "generated_at"
  return {
    target := ← fs.required? "target" Json.str?
    solvableBefore := ← fs.required? "solvable_before" Json.bool?
    solvableAfter := ← fs.required? "solvable_after" Json.bool?
    solutionBefore := ← fs.optional? "solution_before" Json.str?
    solutionAfter := ← fs.optional? "solution_after" Json.str?
    curriculum := ← fs.required? "curriculum" (Json.list? Json.str?)
    admitted := ← fs.required? "capabilities_admitted" Json.count?
    sizeBefore := ← fs.required? "registry_size_before" Json.count?
    sizeAfter := ← fs.required? "registry_size_after" Json.count?
    expansion := ← fs.required? "expansion_ratio" Json.float? }

end Emergence

end Exemplar
