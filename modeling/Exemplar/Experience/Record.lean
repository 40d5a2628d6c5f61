import Exemplar.Clock
import Exemplar.Experience.Features

/-!
# Track records

What a strategy achieved, bucket by bucket. A record holds counts and a running mean, and is never
dropped.
-/

namespace Exemplar

/-- What a strategy achieved on the problems of a bucket. -/
structure Record where
  bucket : Bucket
  successes : Nat
  failures : Nat
  /-- The mean time of an attempt in milliseconds. -/
  meanLatency : Float
  deriving Inhabited

namespace Record

/-- The record of no attempts. -/
def fresh (bucket : Bucket) : Record := ⟨bucket, 0, 0, 0.0⟩

def attempts (r : Record) : Nat := r.successes + r.failures

/-- The part of `attempts` attempts that are successes; zero if there are none. -/
def rate (successes attempts : Nat) : Float :=
  if attempts = 0 then 0.0 else Float.ofNat successes / Float.ofNat attempts

/-- The part of the attempts that succeeded. -/
def successRate (r : Record) : Float := rate r.successes r.attempts

/-- The part that would have succeeded after one more success and one more failure. -/
def score (r : Record) : Float :=
  (Float.ofNat r.successes + 1.0) / (Float.ofNat r.attempts + 2.0)

/-- The record after one more attempt. -/
def observe (r : Record) (success : Bool) (latency : Float) : Record :=
  let successes := if success then r.successes + 1 else r.successes
  let failures := if success then r.failures else r.failures + 1
  { r with
    successes
    failures
    meanLatency :=
      r.meanLatency + (latency - r.meanLatency) / Float.ofNat (successes + failures) }

/-- Some records in ascending order of their buckets, with one more attempt on a bucket. -/
def observeIn (bucket : Bucket) (success : Bool) (latency : Float) : List Record → List Record
  | [] => [(fresh bucket).observe success latency]
  | r :: rs =>
    match bucket.order r.bucket with
    | .lt => (fresh bucket).observe success latency :: r :: rs
    | .eq => r.observe success latency :: rs
    | .gt => r :: observeIn bucket success latency rs

end Record

/-- The records of a strategy. -/
structure Track where
  strategy : String
  /-- One record for each bucket with an attempt, in ascending order. -/
  records : List Record
  deriving Inhabited

namespace Track

def record? (t : Track) (bucket : Bucket) : Option Record :=
  t.records.find? (fun r => r.bucket == bucket)

def attemptsOn (t : Track) (bucket : Bucket) : Nat :=
  ((t.record? bucket).map Record.attempts).getD 0

def successes (t : Track) : Nat := t.records.foldl (fun n r => n + r.successes) 0

def failures (t : Track) : Nat := t.records.foldl (fun n r => n + r.failures) 0

def attempts (t : Track) : Nat := t.successes + t.failures

/-- The track after one more attempt on a bucket. -/
def observe (t : Track) (bucket : Bucket) (success : Bool) (latency : Float) : Track :=
  { t with records := Record.observeIn bucket success latency t.records }

end Track

end Exemplar
