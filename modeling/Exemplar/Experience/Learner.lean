import Exemplar.Error
import Exemplar.Experience.Record
import Exemplar.Random.ChaCha

/-!
# Learning from attempts

A learner knows a row of strategies and what they achieved. It ranks them for a problem by their
success on the problem's bucket, then by their speed, then by the order of their registration. Now
and then the strategy that was tried least on the bucket is moved to the front.
-/

namespace Exemplar

/-- The row of the latest items with one more item at its end. When the row is full, the oldest item
makes room. -/
def Recent.push {α : Type} (limit : Nat) (row : List α) (a : α) : List α :=
  (if limit ≤ row.length then row.drop 1 else row) ++ [a]

/-- An attempt as it was reported. -/
structure Report where
  strategy : String
  bucket : Bucket
  success : Bool
  /-- The time that the attempt took in milliseconds. -/
  latency : Float
  deriving Inhabited

/-- What is known about strategies. -/
structure Learner (σ : Type := ChaCha) where
  /-- The strategies in the order of their registration. -/
  tracks : List Track
  /-- The latest reports, the oldest first. -/
  history : List Report
  historyLimit : Nat
  /-- How probable it is that the least tried strategy goes first. -/
  explorationRate : Float
  source : σ

namespace Learner

variable {σ : Type}

/-- The number of reports that are kept where nothing else is asked for. -/
def standardHistoryLimit : Nat := 256

/-- A rate brought into the interval from zero to one. -/
def clampRate (rate : Float) : Float :=
  if rate < 0.0 then 0.0 else if 1.0 < rate then 1.0 else rate

/-- A learner that knows nothing. -/
def empty (explorationRate : Float) (historyLimit : Nat) (source : σ) : Learner σ :=
  ⟨[], [], max historyLimit 1, clampRate explorationRate, source⟩

def ofSettings (s : Settings) : Learner :=
  empty s.explorationRate s.maxRecords (ChaCha.ofSeed s.seed)

def strategies (l : Learner σ) : List String := l.tracks.map Track.strategy

def knows (l : Learner σ) (name : String) : Bool := l.strategies.contains name

/-- The learner with a strategy at the end of the row, unless it is there. -/
def register (l : Learner σ) (name : String) : Learner σ :=
  if l.knows name then l else { l with tracks := l.tracks ++ [⟨name, []⟩] }

/-! ## Ranking -/

/-- What decides the place of a strategy. -/
structure Standing where
  index : Nat
  name : String
  score : Float
  latency : Float
  attempts : Nat
  deriving Inhabited

/-- The standing of a strategy on a bucket. An untried one counts as half successful and infinitely
slow. -/
def Standing.ofTrack (bucket : Bucket) (t : Track) (index : Nat) : Standing :=
  match t.record? bucket with
  | some r => ⟨index, t.strategy, r.score, r.meanLatency, r.attempts⟩
  | none => ⟨index, t.strategy, 0.5, 1.0 / 0.0, 0⟩

/-- The order of two numbers, where numbers without an order count as equal. -/
def compareFloat (x y : Float) : Ordering := if x < y then .lt else if y < x then .gt else .eq

/-- The order of standings: the higher score, then the lower latency, then the lower index. -/
def Standing.order (a b : Standing) : Ordering :=
  (compareFloat b.score a.score).then
    ((compareFloat a.latency b.latency).then (compare a.index b.index))

/-- The standings on a bucket, the best first. -/
def standings (l : Learner σ) (bucket : Bucket) : List Standing :=
  (l.tracks.zipIdx.map (fun t => Standing.ofTrack bucket t.1 t.2)).mergeSort
    (fun a b => (Standing.order a b).isLE)

/-- The strategies for a bucket without exploration, the best first. -/
def preference (l : Learner σ) (bucket : Bucket) : List String :=
  (l.standings bucket).map Standing.name

/-- The one of two standings that was tried less, or registered earlier. -/
def lessTried (a b : Standing) : Standing :=
  if b.attempts < a.attempts ∨ (b.attempts = a.attempts ∧ b.index < a.index) then b else a

/-- The standings with the least tried one moved to the front. -/
def promote : List Standing → List Standing
  | [] => []
  | s :: rest =>
    let least := rest.foldl lessTried s
    least :: (s :: rest).filter (fun x => x.index ≠ least.index)

variable [RandomSource σ]

/-- Draws whether to explore. With a single strategy there is nothing to explore, and no word is
taken. -/
def explores (l : Learner σ) : Draw σ Bool :=
  if 1 < l.tracks.length then return (← Random.unit) < l.explorationRate else return false

/-- The strategies for a problem in the order in which they should be tried. -/
def rank (l : Learner σ) (bucket : Bucket) : List String × Learner σ :=
  let (exploring, source) := l.explores.run l.source
  let order := l.standings bucket
  ((if exploring then promote order else order).map Standing.name, { l with source })

omit [RandomSource σ]

/-! ## Reports -/

/-- The learner after an attempt of a strategy that it knows. -/
def observe (l : Learner σ) (strategy : String) (bucket : Bucket) (success : Bool)
    (latency : Duration) : Learner σ :=
  let ms := latency.milliseconds
  { l with
    tracks := l.tracks.map
      (fun t => if t.strategy = strategy then t.observe bucket success ms else t)
    history := Recent.push l.historyLimit l.history ⟨strategy, bucket, success, ms⟩ }

/-- The learner after an attempt, which must be one of a strategy that it knows. -/
def record (l : Learner σ) (strategy : String) (bucket : Bucket) (success : Bool)
    (latency : Duration) : Except Error (Learner σ) :=
  if l.knows strategy then .ok (l.observe strategy bucket success latency)
  else .error (.unknownStrategy strategy)

def recordFor? (l : Learner σ) (strategy : String) (bucket : Bucket) : Option Record :=
  (l.tracks.find? (fun t => t.strategy == strategy)).bind (fun t => t.record? bucket)

/-- All records with their strategies: by strategy, then by bucket. -/
def records (l : Learner σ) : List (String × Record) :=
  l.tracks.flatMap (fun t => t.records.map (fun r => (t.strategy, r)))

/-! ## Totals -/

def successes (l : Learner σ) : Nat := l.tracks.foldl (fun n t => n + t.successes) 0

def attempts (l : Learner σ) : Nat := l.tracks.foldl (fun n t => n + t.attempts) 0

def text (l : Learner σ) : String :=
  "MetaLearner(strategies=" ++ toString l.tracks.length ++ ", solved=" ++
    toString l.successes ++ "/" ++ toString l.attempts ++ ")"

end Learner

end Exemplar
