import Exemplar.Experience.Learner

/-!
# Insights

What a learner has found out: totals, a summary of each strategy over all buckets, and the preferred
strategy of every bucket with a record.
-/

namespace Exemplar

/-- What a strategy achieved on all buckets together. -/
structure TrackSummary where
  strategy : String
  successes : Nat
  failures : Nat
  successRate : Float
  /-- The mean time of an attempt in milliseconds. -/
  meanLatency : Float
  deriving Inhabited

def Track.summary (t : Track) : TrackSummary :=
  let total := t.records.foldl (fun sum r => sum + r.meanLatency * Float.ofNat r.attempts) 0.0
  { strategy := t.strategy
    successes := t.successes
    failures := t.failures
    successRate := Record.rate t.successes t.attempts
    meanLatency := if t.attempts = 0 then 0.0 else total / Float.ofNat t.attempts }

/-- What a learner has found out. -/
structure Insights where
  strategyCount : Nat
  attempts : Nat
  successes : Nat
  successRate : Float
  strategies : List TrackSummary
  /-- The preferred strategy by the text of its bucket, in the order of these texts. -/
  preferred : List (String × String)
  deriving Inhabited

/-- A row of entries in ascending order of their texts, with one more unless its text has an entry. -/
def Insights.enter (text name : String) : List (String × String) → List (String × String)
  | [] => [(text, name)]
  | e :: es =>
    if text < e.1 then (text, name) :: e :: es
    else if e.1 < text then e :: enter text name es
    else e :: es

namespace Learner

variable {σ : Type}

/-- The row of preferred strategies with the one of a bucket, if there is any strategy. -/
def enterBucket (l : Learner σ) (entries : List (String × String)) (b : Bucket) :
    List (String × String) :=
  match (l.preference b).head? with
  | some name => Insights.enter b.text name entries
  | none => entries

/-- The preferred strategies of the buckets with a record. A bucket is entered under its text when its
first record comes up. -/
def preferred (l : Learner σ) : List (String × String) :=
  (l.records.map (fun r => r.2.bucket)).foldl l.enterBucket []

def insights (l : Learner σ) : Insights where
  strategyCount := l.tracks.length
  attempts := l.attempts
  successes := l.successes
  successRate := Record.rate l.successes l.attempts
  strategies := l.tracks.map Track.summary
  preferred := l.preferred

end Learner

end Exemplar
