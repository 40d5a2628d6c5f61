import Exemplar.Experience.Insights
import Exemplar.Proofs.Experience.Records
import Exemplar.Proofs.Experience.Totals
import Mathlib.Data.List.DropRight

/-!
# The books of a learner

**Whatever a new learner is asked, its records, its insights and its history agree with the reports that
it has accepted** (`bookkeeping_after`).

The reports are those of the calls that were accepted, in their order. `Books l log` says what a learner
keeps of them: of every strategy a track that tells its reports bucket by bucket (`Track.Tells`), the
latest reports as its history, and the totals. A call that is accepted adds its report to the log and to
the books (`Books.observe`); a strategy that is registered later has no report yet (`Books.register`).
-/

namespace Exemplar

/-! ## The latest items -/

theorem Recent.push_rtake {α : Type} {limit : Nat} (hlimit : 1 ≤ limit) (row : List α) (a : α) :
    push limit (row.rtake limit) a = (row ++ [a]).rtake limit := by
  rw [push, List.rtake, List.rtake, List.length_drop, List.length_append, List.length_singleton]
  by_cases hfull : limit ≤ row.length
  · rw [if_pos (by omega), List.drop_drop, List.drop_append_of_le_length (by omega)]
    congr 2
    omega
  · have hall : row.length + 1 - limit = 0 := by omega
    rw [if_neg (by omega), hall, Nat.sub_eq_zero_of_le (by omega)]
    rfl

/-! ## One strategy -/

/-- The attempts of a record with an outcome. -/
def Record.outcomes (r : Record) (success : Bool) : Nat := if success then r.successes else r.failures

def Track.outcomes (t : Track) (success : Bool) : Nat := if success then t.successes else t.failures

namespace Report

/-- How many reports are on a strategy and a bucket and have an outcome. -/
def tally (log : List Report) (strategy : String) (bucket : Bucket) (success : Bool) : Nat :=
  log.countP fun q => q.strategy = strategy ∧ q.bucket = bucket ∧ q.success = success

/-- How many reports are on a strategy and have an outcome. -/
def total (log : List Report) (strategy : String) (success : Bool) : Nat :=
  log.countP fun q => q.strategy = strategy ∧ q.success = success

variable {log : List Report} {q : Report} {strategy : String} {bucket : Bucket} {success : Bool}

theorem tally_eq_zero (h : ∀ q ∈ log, q.strategy ≠ strategy) :
    tally log strategy bucket success = 0 :=
  List.countP_eq_zero.mpr fun q hq => by simp [h q hq]

theorem total_eq_zero (h : ∀ q ∈ log, q.strategy ≠ strategy) : total log strategy success = 0 :=
  List.countP_eq_zero.mpr fun q hq => by simp [h q hq]

theorem tally_append_of_ne (h : q.strategy ≠ strategy ∨ q.bucket ≠ bucket) :
    tally (log ++ [q]) strategy bucket success = tally log strategy bucket success := by
  have hout : ¬ (q.strategy = strategy ∧ q.bucket = bucket ∧ q.success = success) :=
    fun ⟨hs, hb, _⟩ => h.elim (· hs) (· hb)
  simp [tally, List.countP_append, hout]

theorem tally_append (h : q.strategy = strategy) : tally (log ++ [q]) strategy q.bucket success =
    tally log strategy q.bucket success + (q.success == success).toNat := by
  cases hq : q.success == success <;> simp_all [tally, List.countP_append]

theorem total_append_of_ne (h : q.strategy ≠ strategy) :
    total (log ++ [q]) strategy success = total log strategy success := by
  simp [total, List.countP_append, h]

theorem total_append (h : q.strategy = strategy) : total (log ++ [q]) strategy success =
    total log strategy success + (q.success == success).toNat := by
  cases hq : q.success == success <;> simp_all [total, List.countP_append]

end Report

theorem Record.outcomes_observe (r : Record) (success : Bool) (latency : Float) (outcome : Bool) :
    (r.observe success latency).outcomes outcome =
      r.outcomes outcome + (success == outcome).toNat := by
  cases success <;> cases outcome <;> rfl

namespace Track

theorem outcomes_observe (t : Track) (bucket : Bucket) (success : Bool) (latency : Float)
    (outcome : Bool) : (t.observe bucket success latency).outcomes outcome =
      t.outcomes outcome + (success == outcome).toNat := by
  cases outcome with
  | true => exact (t.successes_observe bucket success latency).trans (by cases success <;> rfl)
  | false => exact (t.failures_observe bucket success latency).trans (by cases success <;> rfl)

/-- A track tells the reports on its strategy: there is a record of a bucket exactly if there is a report
on it, and records and totals count the reports by their outcomes. -/
structure Tells (t : Track) (log : List Report) : Prop where
  ascending : Record.Ascending t.records
  isSome_iff : ∀ b, (t.record? b).isSome = true ↔ ∃ q ∈ log, q.strategy = t.strategy ∧ q.bucket = b
  tally : ∀ b outcome, ((t.record? b).getD (.fresh b)).outcomes outcome =
    Report.tally log t.strategy b outcome
  total : ∀ outcome, t.outcomes outcome = Report.total log t.strategy outcome

theorem tells_of_new {strategy : String} {log : List Report} (h : ∀ q ∈ log, q.strategy ≠ strategy) :
    (⟨strategy, []⟩ : Track).Tells log where
  ascending := .nil
  isSome_iff b := by
    refine ⟨nofun, ?_⟩
    rintro ⟨q, hq, hstrategy, -⟩
    exact absurd hstrategy (h q hq)
  tally b outcome := by
    rw [Report.tally_eq_zero h]
    cases outcome <;> rfl
  total outcome := by
    rw [Report.total_eq_zero h]
    cases outcome <;> rfl

namespace Tells

variable {t : Track} {log : List Report} {q : Report}

theorem skip (h : t.Tells log) (hq : q.strategy ≠ t.strategy) : t.Tells (log ++ [q]) where
  ascending := h.ascending
  isSome_iff b := by
    rw [h.isSome_iff]
    simp [hq]
  tally b outcome := (h.tally b outcome).trans (Report.tally_append_of_ne (.inl hq)).symm
  total outcome := (h.total outcome).trans (Report.total_append_of_ne hq).symm

theorem observe (h : t.Tells log) (hq : q.strategy = t.strategy) :
    (t.observe q.bucket q.success q.latency).Tells (log ++ [q]) where
  ascending := h.ascending.observeIn
  -- the record of the bucket, which is inserted if it is not there, and those of all other buckets
  isSome_iff b := by
    by_cases hb : q.bucket = b
    · rw [← hb, record?_observe h.ascending]
      exact ⟨fun _ => ⟨q, by simp, hq, rfl⟩, fun _ => rfl⟩
    · rw [record?_observe_of_ne hb, h.isSome_iff]
      simp [hb, Track.observe]
  tally b outcome := by
    by_cases hb : q.bucket = b
    · rw [← hb, record?_observe h.ascending, Option.getD_some, Record.outcomes_observe, h.tally]
      exact (Report.tally_append hq).symm
    · rw [record?_observe_of_ne hb, h.tally]
      exact (Report.tally_append_of_ne (.inr hb)).symm
  total outcome := by
    rw [outcomes_observe, h.total]
    exact (Report.total_append hq).symm

end Tells

end Track

/-! ## All strategies -/

namespace Learner

variable {σ : Type} {l : Learner σ} {log : List Report}

/-- What a learner keeps of the reports that it has accepted. -/
structure Books (l : Learner σ) (log : List Report) : Prop where
  nodup : l.strategies.Nodup
  known : ∀ q ∈ log, q.strategy ∈ l.strategies
  tells : ∀ t ∈ l.tracks, t.Tells log
  limit : 1 ≤ l.historyLimit
  history : l.history = log.rtake l.historyLimit
  attempts : l.attempts = log.length
  successes : l.successes = log.countP Report.success

theorem books_empty (rate : Float) (limit : Nat) (source : σ) : (empty rate limit source).Books [] where
  nodup := .nil
  known := nofun
  tells := nofun
  limit := Nat.le_max_right limit 1
  history := (List.drop_nil).symm
  attempts := rfl
  successes := rfl

theorem totals_register (l : Learner σ) (name : String) :
    (l.register name).attempts = l.attempts ∧ (l.register name).successes = l.successes := by
  rw [register]
  split
  · exact ⟨rfl, rfl⟩
  · simp [attempts, successes, Track.attempts, Track.successes, Track.failures]

namespace Books

theorem register (h : l.Books log) (name : String) : (l.register name).Books log := by
  obtain ⟨hattempts, hsuccesses⟩ := totals_register l name
  by_cases hknown : l.knows name = true
  · rwa [Learner.register, if_pos hknown]
  have hnew : name ∉ l.strategies := knows_iff.not.mp hknown
  -- all reports are of strategies that were known before, so the new track has nothing to tell
  have hlog : ∀ q ∈ log, q.strategy ≠ name := fun q hq hname => hnew (hname ▸ h.known q hq)
  have hstrategies := strategies_register hnew
  rw [Learner.register, if_neg hknown] at hattempts hsuccesses hstrategies ⊢
  refine ⟨?_, ?_, ?_, h.limit, h.history, hattempts.trans h.attempts, hsuccesses.trans h.successes⟩
  · rw [hstrategies]
    refine List.nodup_append.mpr ⟨h.nodup, List.pairwise_singleton _ _, fun s hs t ht heq => ?_⟩
    exact hnew (List.mem_singleton.mp ht ▸ heq ▸ hs)
  · intro q hq
    rw [hstrategies]
    exact List.mem_append_left _ (h.known q hq)
  · intro t ht
    rcases List.mem_append.mp ht with ht | ht
    · exact h.tells t ht
    · rw [List.mem_singleton.mp ht]
      exact Track.tells_of_new hlog

theorem rank [RandomSource σ] (h : l.Books log) (bucket : Bucket) : (l.rank bucket).2.Books log :=
  ⟨h.nodup, h.known, h.tells, h.limit, h.history, h.attempts, h.successes⟩

theorem observe (h : l.Books log) {name : String} (hname : name ∈ l.strategies) (bucket : Bucket)
    (success : Bool) (latency : Duration) :
    (l.observe name bucket success latency).Books
      (log ++ [⟨name, bucket, success, latency.milliseconds⟩]) := by
  have hstrategies := strategies_observe l name bucket success latency
  refine ⟨hstrategies ▸ h.nodup, ?_, ?_, h.limit, ?_, ?_, ?_⟩
  · intro q hq
    rw [hstrategies]
    rcases List.mem_append.mp hq with hq | hq
    · exact h.known q hq
    · exact List.mem_singleton.mp hq ▸ hname
  · intro t ht
    obtain ⟨u, hu, rfl⟩ := List.mem_map.mp ht
    split
    · rename_i hown
      exact (h.tells u hu).observe (q := ⟨name, bucket, success, latency.milliseconds⟩) hown.symm
    · rename_i hother
      exact (h.tells u hu).skip (Ne.symm hother)
  · show Recent.push l.historyLimit l.history _ = _
    rw [h.history]
    exact Recent.push_rtake h.limit log _
  · rw [attempts_observe h.nodup hname, h.attempts, List.length_append, List.length_singleton]
  · rw [successes_observe h.nodup hname, h.successes, List.countP_append]
    cases success <;> rfl

end Books

/-! ## Calls -/

/-- What may be asked of a learner, apart from what only reads it. -/
inductive Call where
  | register (name : String)
  | rank (f : Features)
  | record (name : String) (f : Features) (success : Bool) (latency : Duration)

/-- The report that a call adds to those of the learner, if it has one and is accepted. -/
def report? (l : Learner σ) : Call → Option Report
  | .record name f success latency =>
    match l.record name f.bucket success latency with
    | .ok _ => some ⟨name, f.bucket, success, latency.milliseconds⟩
    | .error _ => none
  | .register _ | .rank _ => none

variable [RandomSource σ]

/-- The learner after a call. A report that is refused leaves it as it is. -/
def perform (l : Learner σ) : Call → Learner σ
  | .register name => l.register name
  | .rank f => (l.rank f.bucket).2
  | .record name f success latency =>
    match l.record name f.bucket success latency with
    | .ok l' => l'
    | .error _ => l

def after (l : Learner σ) : List Call → Learner σ
  | [] => l
  | c :: cs => (l.perform c).after cs

/-- The reports that are accepted in the course of some calls. -/
def reports (l : Learner σ) : List Call → List Report
  | [] => []
  | c :: cs => (l.report? c).toList ++ (l.perform c).reports cs

theorem Books.perform (h : l.Books log) (c : Call) :
    (l.perform c).Books (log ++ (l.report? c).toList) := by
  cases c with
  | register name =>
    rw [report?, Option.toList_none, List.append_nil]
    exact h.register name
  | rank f =>
    rw [report?, Option.toList_none, List.append_nil]
    exact h.rank f.bucket
  | record name f success latency =>
    rw [Learner.perform, report?, record]
    by_cases hname : name ∈ l.strategies
    · rw [if_pos (knows_iff.mpr hname)]
      exact h.observe hname f.bucket success latency
    · rw [if_neg (knows_iff.not.mpr hname)]
      simpa using h

theorem Books.after (h : l.Books log) (calls : List Call) :
    (l.after calls).Books (log ++ l.reports calls) := by
  induction calls generalizing l log with
  | nil => rwa [reports, List.append_nil]
  | cons c calls ih =>
    rw [reports, ← List.append_assoc]
    exact ih (h.perform c)

theorem historyLimit_perform (l : Learner σ) (c : Call) :
    (l.perform c).historyLimit = l.historyLimit := by
  cases c with
  | register name =>
    rw [perform, register]
    split <;> rfl
  | rank f => rfl
  | record name f success latency =>
    rw [perform, record]
    by_cases hname : l.knows name = true
    · rw [if_pos hname]
      rfl
    · rw [if_neg hname]

theorem historyLimit_after (l : Learner σ) (calls : List Call) :
    (l.after calls).historyLimit = l.historyLimit := by
  induction calls generalizing l with
  | nil => rfl
  | cons c calls ih => rw [after, ih, historyLimit_perform]

theorem mem_strategies_perform {s : String} {c : Call} :
    s ∈ (l.perform c).strategies ↔ s ∈ l.strategies ∨ c = .register s := by
  cases c with
  | register name =>
    rw [perform, Call.register.injEq]
    by_cases hname : name ∈ l.strategies
    · have hsame : l.register name = l := if_pos (knows_iff.mpr hname)
      rw [hsame, or_iff_left_of_imp]
      rintro rfl
      exact hname
    · rw [strategies_register hname, List.mem_append, List.mem_singleton, eq_comm]
  | rank f => simp [perform]
  | record name f success latency =>
    rw [perform, record]
    by_cases hname : l.knows name = true
    · simp [if_pos hname]
    · simp [if_neg hname]

theorem mem_strategies_after {s : String} {calls : List Call} :
    s ∈ (l.after calls).strategies ↔ s ∈ l.strategies ∨ .register s ∈ calls := by
  induction calls generalizing l with
  | nil => simp [after]
  | cons c calls ih =>
    rw [after, ih, mem_strategies_perform, List.mem_cons, or_assoc, eq_comm (a := c)]

/-! ## What a learner answers -/

namespace Books

variable (h : l.Books log)
include h

omit [RandomSource σ]

theorem recordFor? (s : String) (b : Bucket) :
    ((l.recordFor? s b).isSome = true ↔ ∃ q ∈ log, q.strategy = s ∧ q.bucket = b) ∧
      ∀ r, l.recordFor? s b = some r →
        r.successes = Report.tally log s b true ∧ r.failures = Report.tally log s b false := by
  rw [Learner.recordFor?]
  cases hfind : l.tracks.find? fun t => t.strategy == s with
  | none =>
    -- a report is of a known strategy, which would have been found
    refine ⟨⟨nofun, ?_⟩, nofun⟩
    rintro ⟨q, hq, rfl, -⟩
    obtain ⟨t, ht, hown⟩ := List.mem_map.mp (h.known q hq)
    have hother := List.find?_eq_none.mp hfind t ht
    exact absurd hown (by simpa using hother)
  | some t =>
    have ht := h.tells t (List.mem_of_find?_eq_some hfind)
    obtain rfl : t.strategy = s := by simpa using List.find?_some hfind
    rw [Option.bind_some]
    refine ⟨ht.isSome_iff b, fun r hr => ?_⟩
    have htally := ht.tally b
    rw [hr, Option.getD_some] at htally
    exact ⟨htally true, htally false⟩

theorem summaries : l.insights.strategies.map (fun x => (x.strategy, x.successes, x.failures)) =
    l.strategies.map fun s => (s, Report.total log s true, Report.total log s false) := by
  rw [insights, strategies, List.map_map, List.map_map]
  refine List.map_congr_left fun t ht => ?_
  have htotal := (h.tells t ht).total
  exact congrArg (Prod.mk t.strategy) (Prod.ext (htotal true) (htotal false))

end Books

/-! ## Whole runs -/

/-- **The books of a learner are right, whatever was asked of it.** It knows the strategies that were
registered. There is a record of a strategy on a bucket exactly if such an attempt was reported, and it
counts the successes and the failures that were reported. The insights count all reports and those of
every strategy, and the history holds the latest ones. A report on any other strategy is refused and
changes nothing. -/
theorem bookkeeping_after (rate : Float) (limit : Nat) (source : σ) (calls : List Call) :
    let l := (empty rate limit source).after calls
    let log := (empty rate limit source).reports calls
    (l.strategies.Nodup ∧ ∀ s, s ∈ l.strategies ↔ .register s ∈ calls) ∧
    (∀ s b, ((l.recordFor? s b).isSome = true ↔ ∃ q ∈ log, q.strategy = s ∧ q.bucket = b) ∧
      ∀ r, l.recordFor? s b = some r →
        r.successes = Report.tally log s b true ∧ r.failures = Report.tally log s b false) ∧
    (l.insights.attempts = log.length ∧ l.insights.successes = log.countP Report.success ∧
      l.insights.strategies.map (fun x => (x.strategy, x.successes, x.failures)) =
        l.strategies.map fun s => (s, Report.total log s true, Report.total log s false)) ∧
    (l.history = log.rtake (max limit 1) ∧ l.history.length = min log.length (max limit 1)) ∧
    ∀ name f success latency,
      (name ∈ l.strategies → ∃ l', l.record name (Features.bucket f) success latency = .ok l') ∧
      (name ∉ l.strategies →
        l.record name (Features.bucket f) success latency = .error (.unknownStrategy name) ∧
          l.perform (.record name f success latency) = l) := by
  intro l log
  have hbooks : l.Books log := (books_empty rate limit source).after calls
  have hlimit : l.historyLimit = max limit 1 := historyLimit_after _ calls
  have hhistory : l.history = log.rtake (max limit 1) := hlimit ▸ hbooks.history
  refine ⟨⟨hbooks.nodup, fun s => ?_⟩, hbooks.recordFor?,
    ⟨hbooks.attempts, hbooks.successes, hbooks.summaries⟩, ⟨hhistory, ?_⟩, fun name f success latency => ?_⟩
  · exact mem_strategies_after.trans (or_iff_right List.not_mem_nil)
  · rw [hhistory, List.rtake, List.length_drop]
    omega
  · rw [record, perform, record]
    by_cases hname : name ∈ l.strategies
    · rw [if_pos (knows_iff.mpr hname)]
      exact ⟨fun _ => ⟨_, rfl⟩, fun hnew => absurd hname hnew⟩
    · rw [if_neg (knows_iff.not.mpr hname)]
      exact ⟨fun hknown => absurd hknown hname, fun _ => ⟨rfl, rfl⟩⟩

end Learner

end Exemplar
