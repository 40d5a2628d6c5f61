import Exemplar.Saved.Program
import Exemplar.Verification.Certificate

/-!
# Saved certificates

The JSON form of what came out of a verification.
-/

namespace Exemplar

namespace Check

def savedName : Check → String
  | .replay => "ExampleReplay"
  | .typing => "TypeConsistency"
  | .paths => "PathExploration"
  | .termination => "TerminationBound"

def ofJson? (j : Json) : Option Check :=
  j.name?.bind (fun s => all.find? (fun c => c.savedName == s))

end Check

namespace Outcome

def savedName : Outcome → String
  | .passed => "Passed"
  | .failed => "Failed"
  | .downgraded => "Downgraded"
  | .skipped => "Skipped"

def ofJson? (j : Json) : Option Outcome :=
  j.name?.bind (fun s =>
    [passed, failed, downgraded, skipped].find? (fun o => o.savedName == s))

end Outcome

namespace CheckRecord

def toJson (r : CheckRecord) : Json :=
  .obj [("check", .str r.check.savedName), ("outcome", .str r.outcome.savedName),
    ("detail", .str r.detail)]

def ofJson? (j : Json) : Option CheckRecord := do
  let fs ← j.fields? ["check", "outcome", "detail"]
  return ⟨← fs.required? "check" Check.ofJson?, ← fs.required? "outcome" Outcome.ofJson?,
    ← fs.required? "detail" Json.str?⟩

end CheckRecord

namespace Method

def savedName : Method → String
  | .replay => "Replay"
  | .bounded => "Bounded"

def ofJson? (j : Json) : Option Method :=
  j.name?.bind (fun s => [replay, bounded].find? (fun m => m.savedName == s))

end Method

namespace Actual

def toJson : Actual → Json
  | .value v => .tagged "Ok" v.toJson
  | .failure message => .tagged "Err" (.str message)

def ofJson? (j : Json) : Option Actual := do
  match ← j.choice? with
  | ("Ok", some content) => return .value (← Value.ofJson? content)
  | ("Err", some content) => return .failure (← content.str?)
  | _ => none

end Actual

namespace Counterexample

def toJson (c : Counterexample) : Json :=
  .obj [("inputs", .ofList Value.toJson c.inputs), ("expected", c.expected.toJson),
    ("actual", c.actual.toJson)]

def ofJson? (j : Json) : Option Counterexample := do
  let fs ← j.fields? ["inputs", "expected", "actual"]
  return ⟨← fs.required? "inputs" (Json.list? Value.ofJson?),
    ← fs.required? "expected" Value.ofJson?, ← fs.required? "actual" Actual.ofJson?⟩

end Counterexample

namespace Certificate

/-- The names of the fields, in their order. -/
def fieldNames : List String :=
  ["verified", "admissible", "method", "confidence", "counterexample", "notes", "checks"]

def toJson (c : Certificate) : Json :=
  .obj [("verified", .bool c.verified), ("admissible", .bool c.admissible),
    ("method", .str c.method.savedName), ("confidence", .float c.confidence),
    ("counterexample", .ofOption Counterexample.toJson c.counterexample),
    ("notes", .ofTexts c.notes), ("checks", .ofList CheckRecord.toJson c.checks)]

def ofJson? (j : Json) : Option Certificate := do
  let fs ← j.fields? fieldNames
  return {
    verified := ← fs.required? "verified" Json.bool?
    admissible := ← fs.required? "admissible" Json.bool?
    method := ← fs.required? "method" Method.ofJson?
    confidence := ← fs.required? "confidence" Json.float?
    counterexample := ← fs.optional? "counterexample" Counterexample.ofJson?
    notes := ← fs.required? "notes" (Json.list? Json.str?)
    checks := ← fs.required? "checks" (Json.list? CheckRecord.ofJson?) }

end Certificate

end Exemplar
