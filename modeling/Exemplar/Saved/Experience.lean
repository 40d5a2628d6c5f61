import Exemplar.Experience.Insights
import Exemplar.Saved.Program

/-!
# Saved experience

The JSON form of features, buckets, records and insights.
-/

namespace Exemplar

namespace Features

def toJson (f : Features) : Json :=
  .obj [("inputs", .ofList Ty.toJson f.signature.params), ("output", f.signature.ret.toJson),
    ("example_count", .nat f.examples), ("max_magnitude", .nat f.magnitude)]

def ofJson? (j : Json) : Option Features := do
  let fs ← j.fields? ["inputs", "output", "example_count", "max_magnitude"]
  let params ← fs.required? "inputs" (Json.list? Ty.ofJson?)
  let ret ← fs.required? "output" Ty.ofJson?
  return ⟨⟨params, ret⟩, ← fs.required? "example_count" Json.count?,
    ← fs.required? "max_magnitude" Json.count?⟩

end Features

def ExampleBand.savedName : ExampleBand → String
  | .few => "Few"
  | .some => "Some"
  | .many => "Many"

def MagnitudeBand.savedName : MagnitudeBand → String
  | .small => "Small"
  | .medium => "Medium"
  | .large => "Large"

def Bucket.toJson (b : Bucket) : Json :=
  .obj [("arity", .nat b.arity), ("output", b.output.toJson),
    ("examples", .str b.examples.savedName), ("magnitude", .str b.magnitude.savedName)]

def Record.toJson (strategy : String) (r : Record) : Json :=
  .obj [("strategy", .str strategy), ("bucket", r.bucket.toJson),
    ("successes", .nat r.successes), ("failures", .nat r.failures),
    ("mean_latency_ms", .float r.meanLatency)]

def TrackSummary.toJson (t : TrackSummary) : Json :=
  .obj [("strategy", .str t.strategy), ("successes", .nat t.successes),
    ("failures", .nat t.failures), ("success_rate", .float t.successRate),
    ("mean_latency_ms", .float t.meanLatency)]

def Insights.toJson (i : Insights) : Json :=
  .obj [("strategy_count", .nat i.strategyCount), ("total_attempts", .nat i.attempts),
    ("successful_attempts", .nat i.successes), ("success_rate", .float i.successRate),
    ("strategies", .ofList TrackSummary.toJson i.strategies),
    ("preferred", .obj (i.preferred.map (fun p => (p.1, .str p.2))))]

end Exemplar
