import Exemplar.Proofs.Enumeration.Course
import Exemplar.Proofs.Enumeration.Soundness

/-!
# What a search counts

**Every candidate that is counted is accounted for** (`run_balanced`): it was kept, or its outputs had been
seen, or it failed on an example, with the exception of one that was counted when the clock ran out inside a
level. This holds for every table and every sequence of clock readings.

Counting, keeping and dropping are separate steps, so the invariant speaks of the candidates that are
`pending`, counted but neither kept nor dropped: one between the two steps, and none between two candidates.
-/

namespace Exemplar.Enumeration

variable {k : Task} {s : State} {done pending : Nat}

/-! ## Between two candidates -/

/-- The counters of a search that has finished a number of levels agree with what was kept. -/
structure State.Balanced (k : Task) (done pending : Nat) (s : State) : Prop where
  within : s.stats.candidates ≤ k.maxCandidates
  candidates :
    s.stats.candidates = s.stats.retained + s.stats.pruned + s.stats.discarded + pending
  retained : s.stats.retained = s.kept.length
  distinct : (s.kept.map Entry.outputs).Nodup
  seen : ∀ e ∈ s.kept, s.seen.contains e.outputs = true
  levels : s.stats.levels = done
  running : s.stats.exhaustedBy = none

/-- The counters of a search that ended while a level was built. -/
def Halted.Balanced (k : Task) (done : Nat) : Halted → Prop
  | ⟨s, .stopped .timeBudget⟩ => s.Balanced k done 1
  | ⟨s, .stopped .candidateLimit⟩ => s.Balanced k done 0 ∧ s.stats.candidates = k.maxCandidates
  | ⟨s, _⟩ => s.Balanced k done 0

namespace State.Balanced

theorem read (hs : s.Balanced k done pending) (readings : Nat) :
    Balanced k done pending { s with readings := readings } :=
  ⟨hs.within, hs.candidates, hs.retained, hs.distinct, hs.seen, hs.levels, hs.running⟩

theorem finishLevel (hs : s.Balanced k done pending) (size : Nat) :
    (s.finishLevel size).Balanced k size pending := by
  refine ⟨hs.within, hs.candidates, ?_, ?_, ?_, rfl, hs.running⟩
  all_goals rw [kept_finishLevel]
  · exact hs.retained
  · exact hs.distinct
  · exact hs.seen

theorem push (hs : s.Balanced k done 1) {e : Entry} (hnew : s.seen.contains e.outputs = false) :
    Balanced k done 0 { s with
      seen := s.seen.insert e.outputs
      fresh := s.fresh.push e
      stats.retained := s.stats.retained + 1 } := by
  have hkept : ∀ stats seen, (State.mk s.levels (s.fresh.push e) seen stats s.readings).kept =
      s.kept ++ [e] := by
    intro stats seen
    simp [kept, finished]
  have hbalance := hs.candidates
  refine ⟨hs.within, ?_, ?_, ?_, ?_, hs.levels, hs.running⟩
  · dsimp only
    omega
  · rw [hkept, List.length_append, ← hs.retained]
    rfl
  · rw [hkept, List.map_append, List.nodup_append]
    refine ⟨hs.distinct, by simp, ?_⟩
    -- the outputs of what was kept have been seen, and those of the candidate have not
    intro outputs houtputs outputs' hlast
    obtain ⟨e', he', rfl⟩ := List.mem_map.mp houtputs
    obtain rfl := List.mem_singleton.mp hlast
    intro hsame
    have hseen := hs.seen e' he'
    rw [hsame, hnew] at hseen
    cases hseen
  · rw [hkept]
    intro e' he'
    rw [Std.HashSet.contains_insert, Bool.or_eq_true, beq_iff_eq]
    rcases List.mem_append.mp he' with he' | he'
    · exact .inr (hs.seen e' he')
    · rw [List.mem_singleton.mp he']
      exact .inl rfl

end State.Balanced

theorem count_balanced (hs : s.Balanced k done 0) :
    Post (State.Balanced k done 1) (Halted.Balanced k done) (count k s) := by
  have hbalance := hs.candidates
  rw [count]
  split
  · rename_i hlimit
    exact ⟨hs, Nat.le_antisymm hs.within hlimit⟩
  · rename_i hlimit
    have hcounted : State.Balanced k done 1
        { s with stats.candidates := s.stats.candidates + 1 } :=
      ⟨Nat.lt_of_not_le hlimit, by dsimp only; omega, hs.retained, hs.distinct, hs.seen, hs.levels,
        hs.running⟩
    dsimp only
    split
    · rw [checkClock]
      split
      · exact hcounted.read _
      · exact hcounted.read _
    · exact hcounted

theorem offer_balanced (e : Entry) (hs : s.Balanced k done 0) :
    Post (State.Balanced k done 0) (Halted.Balanced k done) (offer k e s) := by
  refine (count_balanced hs).bind fun s' hs' => ?_
  split
  · have hbalance := hs'.candidates
    exact ⟨hs'.within, by dsimp only; omega, hs'.retained, hs'.distinct, hs'.seen, hs'.levels,
      hs'.running⟩
  · rename_i hnew
    have hpushed := hs'.push (e := e) (by simpa using hnew)
    split
    · exact hpushed
    · exact hpushed

theorem discard_balanced (hs : s.Balanced k done 0) :
    Post (State.Balanced k done 0) (Halted.Balanced k done) (discard k s) := by
  refine (count_balanced hs).bind fun s' hs' => ?_
  have hbalance := hs'.candidates
  exact ⟨hs'.within, by dsimp only; omega, hs'.retained, hs'.distinct, hs'.seen, hs'.levels,
    hs'.running⟩

/-! ## Levels -/

theorem build_balanced (hs : s.Balanced k done 0) :
    Post (State.Balanced k done 0) (Halted.Balanced k done) (build k done s) :=
  build_post (fun e _ _ hs => offer_balanced e hs) (fun _ hs => discard_balanced hs) hs

theorem through_balanced {s : State} (hthrough : through k done = .ok s) : s.Balanced k done 0 := by
  refine through_induction (P := fun done => State.Balanced k done 0) ?_ ?_ ?_ hthrough
  · exact ⟨Nat.zero_le _, rfl, rfl, List.nodup_nil, by simp [State.start, State.kept, State.finished],
      rfl, rfl⟩
  · intro done s hs s' hbuild
    have hbuilt := build_balanced hs
    rwa [hbuild] at hbuilt
  · intro done s hs readings
    exact (hs.finishLevel (done + 1)).read readings

/-! ## Runs -/

/-- The clock ended the search while a level was built, after a candidate was counted. -/
def Halted.Interrupted (k : Task) (h : Halted) : Prop :=
  h.ending = .stopped .timeBudget ∧ ∃ done s, through k done = .ok s ∧ build k done s = .error h

theorem Halted.Interrupted.balanced {h : Halted} (hinterrupted : h.Interrupted k) :
    ∃ done, h.state.Balanced k done 1 := by
  obtain ⟨hending, done, s, hs, hbuild⟩ := hinterrupted
  have hbuilt := build_balanced (through_balanced hs)
  rw [hbuild] at hbuilt
  obtain ⟨s', ending⟩ := h
  obtain rfl : ending = .stopped .timeBudget := hending
  exact ⟨done, hbuilt⟩

/-- What the counters of a search that has ended tell of its end. -/
structure Halted.Accounted (k : Task) (done pending : Nat) (h : Halted) : Prop where
  state : h.state.Balanced k done pending
  pending : pending = 0 ∨ h.Interrupted k
  found : ∀ e, h.ending = .found e → e.size = done + 1
  limit : h.ending = .stopped .candidateLimit → h.state.stats.candidates = k.maxCandidates
  finished : h.ending = .stopped .maxSize → done = k.maxSize

theorem Halted.Balanced.accounted {h : Halted} (hh : h.Balanced k done) (hs : through k done = .ok s)
    (hbuild : build k done s = .error h) (hends : h.EndsAt (done + 1)) :
    ∃ pending, h.Accounted k done pending := by
  obtain ⟨s', e | reason⟩ := h
  · refine ⟨0, hh, .inl rfl, ?_, by simp, by simp⟩
    rintro e' ⟨⟩
    exact hends
  · cases reason with
    | candidateLimit =>
      obtain ⟨hs', hlimit⟩ := hh
      exact ⟨0, hs', .inl rfl, by simp, fun _ => hlimit, by simp⟩
    | timeBudget => exact ⟨1, hh, .inr ⟨rfl, done, s, hs, hbuild⟩, by simp, by simp, by simp⟩
    | maxSize => exact absurd rfl hends

theorem search_accounted (hmax : 1 ≤ k.maxSize) :
    ∃ done pending, (search k).Accounted k done pending := by
  rw [search_eq hmax]
  cases hthrough : through k k.maxSize with
  | ok s => exact ⟨k.maxSize, 0, through_balanced hthrough, .inl rfl, by simp, by simp, fun _ => rfl⟩
  | error h =>
    obtain ⟨done, -, s, hs, hends⟩ := exists_of_through_eq_error hthrough
    have hbuilt := build_balanced (through_balanced hs)
    have hsize := endsAt_of_level hends
    cases hbuild : build k done s with
    | error halted =>
      rw [hbuild] at hbuilt hends
      obtain rfl : halted = h := Except.error.inj hends
      exact ⟨done, hbuilt.accounted hs hbuild hsize⟩
    | ok s' =>
      -- the level is finished, and the clock is read once more
      rw [hbuild] at hbuilt hends
      obtain ⟨readings, rfl⟩ := close_eq_error hends
      exact ⟨done + 1, 0, (hbuilt.finishLevel _).read _, .inl rfl, by simp, by simp, by simp⟩

def Ending.reason? : Ending → Option Exhaustion
  | .found _ => none
  | .stopped reason => some reason

theorem Halted.stats_outcome {h : Halted} (hrunning : h.state.stats.exhaustedBy = none) :
    h.outcome.stats = { h.state.stats with exhaustedBy := h.ending.reason? } := by
  obtain ⟨s, e | reason⟩ := h
  · change s.stats = { s.stats with exhaustedBy := none }
    rw [← hrunning]
  · rfl

theorem ending_of_exhaustedBy (hmax : 1 ≤ k.maxSize) {reason : Exhaustion}
    (h : (search k).outcome.stats.exhaustedBy = some reason) :
    (search k).ending = .stopped reason := by
  obtain ⟨_, _, hstate, -⟩ := search_accounted hmax
  rw [Halted.stats_outcome hstate.running] at h
  cases hending : (search k).ending with
  | found e => simp [hending, Ending.reason?] at h
  | stopped reason' => simpa [hending, Ending.reason?] using h

/-- The statistics of an outcome account for all candidates of the search that it comes from. -/
structure Outcome.Balanced (k : Task) (out : Outcome) : Prop where
  outcome : out = (search k).outcome
  within : out.stats.candidates ≤ k.maxCandidates
  interrupted : (search k).Interrupted k → out.stats.candidates =
    out.stats.retained + out.stats.pruned + out.stats.discarded + 1
  uninterrupted : ¬ (search k).Interrupted k → out.stats.candidates =
    out.stats.retained + out.stats.pruned + out.stats.discarded
  retained : out.stats.retained = (search k).state.kept.length
  distinct : ((search k).state.kept.map Entry.outputs).Nodup
  solved : out.stats.exhaustedBy = none ↔ ∃ sol, out.solution = some sol
  limit : out.stats.exhaustedBy = some .candidateLimit → out.stats.candidates = k.maxCandidates
  finished : out.stats.exhaustedBy = some .maxSize → out.stats.levels = k.maxSize
  level : ∀ sol, out.solution = some sol → sol.size = out.stats.levels + 1

theorem search_balanced (hmax : 1 ≤ k.maxSize) : (search k).outcome.Balanced k := by
  obtain ⟨done, pending, hstate, hpending, hfound, hlimit, hfinished⟩ := search_accounted hmax
  have hstats := Halted.stats_outcome hstate.running
  refine ⟨rfl, ?_, ?_, ?_, ?_, hstate.distinct, ?_, ?_, ?_, ?_⟩
  · rw [hstats]
    exact hstate.within
  · intro hinterrupted
    obtain ⟨_, hbalanced⟩ := hinterrupted.balanced
    rw [hstats]
    exact hbalanced.candidates
  · intro huninterrupted
    have hnone : pending = 0 := hpending.resolve_right huninterrupted
    have hcandidates := hstate.candidates
    rw [hstats]
    rwa [hnone] at hcandidates
  · rw [hstats]
    exact hstate.retained
  · rw [hstats, Halted.outcome]
    cases (search k).ending <;> simp [Ending.reason?]
  · intro hexhausted
    rw [hstats]
    exact hlimit (ending_of_exhaustedBy hmax hexhausted)
  · intro hexhausted
    rw [hstats]
    exact hstate.levels.trans (hfinished (ending_of_exhaustedBy hmax hexhausted))
  · intro sol hsol
    rw [hstats]
    cases hending : (search k).ending with
    | found e =>
      rw [Halted.outcome, hending] at hsol
      obtain rfl : ⟨e.term, e.size⟩ = sol := Option.some.inj hsol
      rw [hstate.levels]
      exact hfound e hending
    | stopped reason =>
      rw [Halted.outcome, hending] at hsol
      cases hsol

/-- **The statistics of a run account for every candidate.** -/
theorem run_balanced {m : Machine} {b : Bounds} {examples : List Example} {out : Outcome}
    (hrun : run m b examples = .ok out) :
    ∃ signature, Problem.signature examples = .ok signature ∧
      out.Balanced (b.task m examples signature) := by
  obtain ⟨signature, hsig, -, hmax, rfl⟩ := run_eq_ok.mp hrun
  exact ⟨signature, hsig, search_balanced (Nat.one_le_iff_ne_zero.mpr hmax)⟩

/-- The search for a choice between two constants counts eight candidates, of which it keeps seven. -/
theorem run_balanced_choice :
    let m := (Table.ofBuiltins [.cond]).machine .standard
    let b : Bounds := ⟨[1, 2], 5, 100, fun _ => false⟩
    let examples : List Example := [⟨[.bool true], .int 1⟩, ⟨[.bool false], .int 2⟩]
    let out : Outcome :=
      ⟨some ⟨.apply 0 [.var 0, .lit (.int 1), .lit (.int 2)], 5⟩, ⟨4, 8, 7, 1, 0, none⟩⟩
    run m b examples = .ok out ∧ ∃ signature, Problem.signature examples = .ok signature ∧
      out.Balanced (b.task m examples signature) :=
  ⟨run_conditional, run_balanced run_conditional⟩

end Exemplar.Enumeration
