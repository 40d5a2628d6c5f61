import Exemplar.Evolution.Run
import Exemplar.Json.Shape

/-!
# Saved search results

The JSON form of enumeration statistics, of fitness and of the summary of an evolution.
-/

namespace Exemplar

def Exhaustion.savedName : Exhaustion → String
  | .maxSize => "MaxSize"
  | .timeBudget => "TimeBudget"
  | .candidateLimit => "CandidateLimit"

def Enumeration.Stats.toJson (s : Enumeration.Stats) : Json :=
  .obj [("levels_completed", .nat s.levels), ("candidates", .nat s.candidates),
    ("retained", .nat s.retained), ("pruned_equivalent", .nat s.pruned),
    ("discarded_failures", .nat s.discarded),
    ("exhausted_by", .ofOption (fun r => .str (Exhaustion.savedName r)) s.exhaustedBy)]

namespace Fitness

def toJson (f : Fitness) : Json :=
  .obj [("satisfied", .nat f.satisfied), ("total", .nat f.total), ("size", .nat f.size),
    ("failures", .nat f.failures)]

def ofJson? (j : Json) : Option Fitness := do
  let fs ← j.fields? ["satisfied", "total", "size", "failures"]
  return {
    satisfied := ← fs.required? "satisfied" Json.count?
    total := ← fs.required? "total" Json.count?
    size := ← fs.required? "size" Json.count?
    failures := ← fs.required? "failures" Json.count? }

end Fitness

def Evolution.Summary.toJson (s : Evolution.Summary) : Json :=
  .obj [("generation", .nat s.generation), ("best", .float s.best), ("mean", .float s.mean),
    ("best_size", .nat s.bestSize)]

def Evolution.Termination.savedName : Evolution.Termination → String
  | .perfect => "Perfect"
  | .generationLimit => "GenerationLimit"
  | .timeBudget => "TimeBudget"

end Exemplar
