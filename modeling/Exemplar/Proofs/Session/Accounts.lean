import Exemplar.Proofs.Evolution.Population
import Exemplar.Proofs.Experience.Bookkeeping
import Exemplar.Proofs.Session.Chronicle

/-!
# The accounts of a session

**Whatever is asked of a new session, its counts, its learner, its journal and its catalog agree with
each other and with the requests that were answered** (`after_accounts`).

The proof is an induction over the chronicle of the session (`Chronicle.accounts`). Answering a request
adds its trials to the attempts of the session and of the learner. At most one of the trials succeeds, and
then the request has an answer; without best effort it has one only then (`successes_trials`).
-/

namespace Exemplar

namespace Session

variable {q : Request} {s : Session}

/-! ## Trials of a request -/

theorem countP_cons_toNat {α : Type} (p : α → Bool) (a : α) (as : List α) :
    (a :: as).countP p = as.countP p + (p a).toNat := by
  rw [List.countP_cons]
  cases p a <;> rfl

theorem countP_succeeds_of_failed {ts : List Trial} (h : ∀ t ∈ ts, t.succeeds q = false) :
    ts.countP (Trial.succeeds q) = 0 := by
  rw [List.countP_eq_zero]
  intro t ht
  simp [h t ht]

/-- At most one trial succeeds, and then there is an answer. Without best effort there is none
otherwise. -/
theorem successes_trials (q : Request) (s : Session) :
    (s.trials q).countP (Trial.succeeds q) ≤ (q.collect s.timing (s.trials q)).answer.isSome.toNat ∧
      (q.settings.bestEffort = false →
        (s.trials q).countP (Trial.succeeds q) =
          (q.collect s.timing (s.trials q)).answer.isSome.toNat) := by
  by_cases hsome : ∃ t ∈ s.trials q, t.succeeds q = true
  · obtain ⟨t, ht, hsucceeds⟩ := hsome
    obtain ⟨p, hp⟩ := Option.isSome_iff_exists.mp (Request.judge_success hsucceeds)
    obtain ⟨c, hreturned, -⟩ := Request.program?_eq_some_iff.mp hp
    obtain ⟨-, hanswer⟩ := answer_of_success ht hsucceeds hreturned
    have hone : (s.trials q).countP (Trial.succeeds q) = 1 := by
      obtain ⟨ts, hts⟩ := Request.eq_append_of_success ht hsucceeds
      have hfailed : ∀ t ∈ ts, t.succeeds q = false := by
        intro u hu
        have hmem : u ∈ (s.trials q).dropLast := by
          rw [trials, hts, List.dropLast_concat]
          exact hu
        exact Request.failed_of_mem_dropLast_course hmem
      rw [trials, hts, List.countP_append, countP_succeeds_of_failed hfailed]
      simp [hsucceeds]
    rw [hone, hanswer]
    exact ⟨Nat.le_refl 1, fun _ => rfl⟩
  · have hfailed : ∀ t ∈ s.trials q, t.succeeds q = false := by simpa using hsome
    rw [countP_succeeds_of_failed hfailed, Request.answer_collect_of_failed hfailed]
    refine ⟨Nat.zero_le _, fun hstrict => ?_⟩
    simp [hstrict]

theorem totals_foldl_teach {timing : Timing} {ts : List Trial} {l : Learner}
    (hnodup : l.strategies.Nodup) (hknown : ∀ t ∈ ts, t.strategy.name ∈ l.strategies) :
    (ts.foldl (q.teach timing) l).attempts = l.attempts + ts.length ∧
      (ts.foldl (q.teach timing) l).successes = l.successes + ts.countP (Trial.succeeds q) := by
  induction ts generalizing l with
  | nil => exact ⟨rfl, rfl⟩
  | cons t ts ih =>
    obtain ⟨ht, hts⟩ := List.forall_mem_cons.mp hknown
    have hsame : (q.teach timing l t).strategies = l.strategies := Learner.strategies_observe _ _ _ _ _
    have hattempts : (q.teach timing l t).attempts = l.attempts + 1 :=
      Learner.attempts_observe hnodup ht _ _ _
    have hsuccesses : (q.teach timing l t).successes = l.successes + (t.succeeds q).toNat :=
      Learner.successes_observe hnodup ht _ _ _
    obtain ⟨ihAttempts, ihSuccesses⟩ := ih (l := q.teach timing l t) (hsame ▸ hnodup) (hsame ▸ hts)
    rw [List.foldl_cons, ihAttempts, ihSuccesses, hattempts, hsuccesses, countP_cons_toNat,
      List.length_cons]
    omega

theorem totals_answered (hstaffed : s.Staffed) (q : Request) :
    (s.answered q).learner.attempts = s.learner.attempts + (s.trials q).length ∧
      (s.answered q).learner.successes =
        s.learner.successes + (s.trials q).countP (Trial.succeeds q) := by
  have hnodup : s.learner.strategies.Nodup := hstaffed.known ▸ hstaffed.nodup
  have hknown : ∀ t ∈ s.trials q, t.strategy.name ∈ s.learner.strategies := by
    intro t ht
    obtain ⟨-, hknows, -⟩ := trials_returned hstaffed t ht
    exact Learner.knows_iff.mp hknows
  -- a ranking uses up random words and changes nothing else of the learner
  exact totals_foldl_teach (l := (s.learner.rank q.features.bucket).2) hnodup hknown

theorem tally_answered (q : Request) (s : Session) :
    let answer := (q.collect s.timing (s.trials q)).answer
    (s.answered q).tally.strategyAttempts = s.tally.strategyAttempts + (s.trials q).length ∧
      (s.answered q).tally.attempted = s.tally.attempted + 1 ∧
      (s.answered q).tally.solved = s.tally.solved + answer.isSome.toNat ∧
      (s.answered q).tally.verified ≤ s.tally.verified + answer.isSome.toNat ∧
      (s.answered q).tally.admitted = s.tally.admitted := by
  intro answer
  show (countAnswer answer _).strategyAttempts = _ ∧ (countAnswer answer _).attempted = _ ∧
    (countAnswer answer _).solved = _ ∧ (countAnswer answer _).verified ≤ _ ∧
    (countAnswer answer _).admitted = _
  cases answer with
  | none => exact ⟨rfl, rfl, rfl, Nat.le_refl _, rfl⟩
  | some p =>
    refine ⟨rfl, rfl, rfl, ?_, rfl⟩
    rw [countAnswer]
    cases p.verified
    · exact Nat.le_succ _
    · exact Nat.le_refl _

/-! ## The accounts -/

/-- How a request is entered into the journal of the session that answers it. -/
def entry (s : Session) (q : Request) : Entry := entryOf q (q.collect s.timing (s.trials q))

/-- The books of a session after the requests of a log. -/
structure Accounts (s₀ : Session) (log : List (Session × Request)) (s : Session) : Prop where
  attempts : s.tally.strategyAttempts = s.learner.attempts
  verified_le : s.tally.verified ≤ s.tally.solved
  solved_le : s.tally.solved ≤ s.tally.attempted
  successes_le : s.learner.successes ≤ s.tally.solved
  /-- Without best effort every answer is the success of a strategy. -/
  successes_eq : (∀ r ∈ log, r.2.settings.bestEffort = false) → s.learner.successes = s.tally.solved
  attempted : s.tally.attempted = log.length
  /-- The journal holds the latest requests, as many as it may. -/
  history : s.history = (log.map fun r => r.1.entry r.2).rtake s₀.settings.maxRecords
  size : s.catalog.size = s₀.catalog.size + s.tally.admitted

variable {s₀ : Session} {log : List (Session × Request)}

theorem Accounts.answered (h : s₀.Accounts log s) (hsettings : s.settings = s₀.settings)
    (hstaffed : s.Staffed) (hrecords : 1 ≤ s₀.settings.maxRecords) (q : Request) :
    s₀.Accounts (log ++ [(s, q)]) (s.answered q) := by
  obtain ⟨hattempts, hsuccesses⟩ := totals_answered hstaffed q
  obtain ⟨htried, hattempted, hsolved, hverified, hadmitted⟩ := tally_answered q s
  obtain ⟨hle, heq⟩ := successes_trials q s
  have hone := Bool.toNat_le (q.collect s.timing (s.trials q)).answer.isSome
  constructor
  case attempts => rw [htried, hattempts, h.attempts]
  case verified_le =>
    have hbefore := h.verified_le
    omega
  case solved_le =>
    have hbefore := h.solved_le
    omega
  case successes_le =>
    have hbefore := h.successes_le
    omega
  case successes_eq =>
    intro hstrict
    obtain ⟨hlog, hlast⟩ := List.forall_mem_append.mp hstrict
    rw [hsuccesses, hsolved, h.successes_eq hlog, heq (hlast _ (List.mem_singleton_self _))]
  case attempted => rw [hattempted, h.attempted, List.length_append, List.length_singleton]
  case history =>
    have hpush : (s.answered q).history =
        Recent.push s₀.settings.maxRecords s.history (s.entry q) := hsettings ▸ rfl
    rw [hpush, h.history, Recent.push_rtake hrecords, List.map_append, List.map_singleton]
  case size =>
    rw [hadmitted]
    exact h.size

theorem size_promoted (s : Session) (p : Program) (admitted : Bool) :
    (s.promoted p admitted).catalog.size = s.catalog.size + admitted.toNat := by
  cases admitted with
  | true => exact Table.size_push _ _
  | false => rfl

theorem Accounts.promoted (h : s₀.Accounts log s) (p : Program) (admitted : Bool) :
    s₀.Accounts log (s.promoted p admitted) := by
  have hsize := size_promoted s p admitted
  rw [h.size] at hsize
  cases admitted with
  | true =>
    exact ⟨h.attempts, h.verified_le, h.solved_le, h.successes_le, h.successes_eq, h.attempted,
      h.history, hsize⟩
  | false =>
    exact ⟨h.attempts, h.verified_le, h.solved_le, h.successes_le, h.successes_eq, h.attempted,
      h.history, hsize⟩

theorem accounts_ofCatalog {catalog : Catalog} {settings : Settings} {timing : Timing}
    (h : ofCatalog catalog settings timing = .ok s) : s.Accounts [] s := by
  obtain ⟨-, -, rfl⟩ := ofCatalog_eq_ok.mp h
  constructor
  case history => exact (List.rtake_nil _).symm
  case size => rfl
  case attempts => rfl
  case attempted => rfl
  case successes_eq => exact fun _ => rfl
  all_goals exact Nat.le_refl 0

theorem Chronicle.accounts {catalog : Catalog} {settings : Settings} {timing : Timing}
    (h : ofCatalog catalog settings timing = .ok s₀) (hlog : s₀.Chronicle log s) :
    s₀.Accounts log s := by
  have hrecords : 1 ≤ s₀.settings.maxRecords := by
    obtain ⟨hvalid, -, rfl⟩ := ofCatalog_eq_ok.mp h
    exact Settings.budget_pos hvalid ("max_tracked_records", settings.maxRecords)
      (by simp [Settings.budgets])
  have hstaffed : s₀.Staffed := (Reachable.created h).staffed
  induction hlog with
  | start => exact accounts_ofCatalog h
  | answered hlog _ ih =>
    exact ih.answered hlog.settings (hlog.staffed hstaffed) hrecords _
  | promoted _ _ ih => exact ih.promoted _ _

/-! ## Lessons -/

theorem size_study (hs : s.Staffed) {examples : List Example} {r : Bool × String} {s' : Session}
    (h : s.perform (study examples) = (.ok r, s')) :
    s'.catalog.size = s.catalog.size + r.1.toNat := by
  rw [study, perform_bind_eq_ok] at h
  obtain ⟨answer, s₁, hsolve, h⟩ := h
  rw [perform_solve] at hsolve
  obtain ⟨features, -, -, -, rfl⟩ := request_eq_ok hs hsolve
  have hsize : (s.answered ⟨s.settings, true, s.catalog.table, examples, features⟩).catalog.size =
      s.catalog.size := rfl
  cases answer with
  | none =>
    obtain ⟨hr, rfl⟩ := Prod.mk.inj h
    obtain rfl := Except.ok.inj hr
    rfl
  | some p =>
    dsimp only at h
    by_cases hverified : p.verified = true
    · rw [if_pos hverified, perform_bind_eq_ok] at h
      obtain ⟨admitted, s₂, hpromote, h⟩ := h
      obtain ⟨hr, rfl⟩ := Prod.mk.inj h
      obtain rfl := Except.ok.inj hr
      obtain rfl := promote_eq_ok hpromote
      rw [size_promoted, hsize]
    · rw [if_neg hverified] at h
      obtain ⟨hr, rfl⟩ := Prod.mk.inj h
      obtain rfl := Except.ok.inj hr
      rfl

theorem size_expand (hs : s.Staffed) {problems : List (List Example)}
    {studies : List (Bool × String)} {s' : Session} (h : s.perform (expand problems) = (.ok studies, s')) :
    s'.catalog.size = s.catalog.size + admissions studies := by
  induction problems generalizing s studies with
  | nil =>
    obtain ⟨hstudies, rfl⟩ := Prod.mk.inj h
    obtain rfl := Except.ok.inj hstudies
    rfl
  | cons examples problems ih =>
    rw [expand, List.mapM_cons, perform_bind_eq_ok] at h
    obtain ⟨r, s₁, hstudy, h⟩ := h
    obtain ⟨rs, s₂, hexpand, h⟩ := perform_bind_eq_ok.mp h
    obtain ⟨hstudies, rfl⟩ := Prod.mk.inj h
    obtain rfl := Except.ok.inj hstudies
    have hstaffed : s₁.Staffed := by
      have hafter := (leads_study hs examples).staffed hs
      rwa [hstudy] at hafter
    rw [ih hstaffed hexpand, size_study hs hstudy, admissions, admissions, countP_cons_toNat]
    omega

/-- **A lesson reports by how much the catalog has grown.** -/
theorem size_learn (hs : s.Staffed) {problems : List (List Example)} {k : Nat} {s' : Session}
    (h : s.perform (learn problems) = (.ok k, s')) : s'.catalog.size = s.catalog.size + k := by
  obtain ⟨studies, s₁, hexpand, h⟩ := perform_bind_eq_ok.mp h
  obtain ⟨hk, rfl⟩ := Prod.mk.inj h
  obtain rfl := Except.ok.inj hk
  exact size_expand hs hexpand

/-! ## Whole runs -/

/-- **The accounts of a session agree, whatever was asked of it**: with each other, with the requests that
were answered, which are the queries of the calls in their order, and with what every lesson reports. -/
theorem after_accounts {catalog : Catalog} (hc : catalog.Grown) {settings : Settings}
    {timing : Timing} {s₀ : Session} (h : ofCatalog catalog settings timing = .ok s₀)
    (calls : List Call) :
    (∃ log, s₀.Chronicle log (s₀.after calls) ∧
      log.map (fun r => r.2.query) = calls.flatMap (Call.posed settings) ∧
      s₀.Accounts log (s₀.after calls)) ∧
    ∀ problems k s', (s₀.after calls).perform (learn problems) = (.ok k, s') →
      s'.catalog.size = (s₀.after calls).catalog.size + k := by
  have hproper : s₀.catalog.Proper := (catalog_ofCatalog h ▸ hc).proper
  have hsettings : s₀.settings = settings := by
    obtain ⟨-, -, rfl⟩ := ofCatalog_eq_ok.mp h
    rfl
  have hstaffed : s₀.Staffed := (Reachable.created h).staffed
  obtain ⟨log, hlog, hqueries⟩ := chronicle_after hstaffed hproper calls
  rw [hsettings] at hqueries
  exact ⟨⟨log, hlog, hqueries, hlog.accounts h⟩,
    fun _ _ _ hlearn => size_learn (hlog.staffed hstaffed) hlearn⟩

/-- Of the problems of a lesson the second is refused, which ends the lesson. A demonstration and a problem
without verification follow. -/
theorem after_accounts_lesson :
    let catalog := Catalog.ofBuiltins [.cond] 64 .standard
    let examples : List Example := [⟨[.bool true], .int 1⟩, ⟨[.bool false], .int 2⟩]
    let calls : List Call :=
      [.learn [examples, [], examples], .demonstrate, .solve examples false]
    ∃ s₀, catalog.Grown ∧ ofCatalog catalog .standard .instant = .ok s₀ ∧
      (∃ log, s₀.Chronicle log (s₀.after calls) ∧
        log.map (fun r => r.2.query) = calls.flatMap (Call.posed .standard) ∧ log.length = 6 ∧
        s₀.Accounts log (s₀.after calls)) ∧
      ∀ problems k s', (s₀.after calls).perform (learn problems) = (.ok k, s') →
        s'.catalog.size = (s₀.after calls).catalog.size + k := by
  intro catalog examples calls
  have hc : catalog.Grown := Catalog.grown_ofBuiltins _ _ _
  have hsettings : Settings.standard.validate = .ok () := by decide +kernel
  have hcreated : ofCatalog catalog .standard .instant =
      .ok (Strategy.standard.foldl addStrategy (bare catalog .standard .instant)) :=
    ofCatalog_eq_ok.mpr ⟨hsettings, by decide, rfl⟩
  obtain ⟨⟨log, hlog, hqueries, haccounts⟩, hlearn⟩ := after_accounts hc hcreated calls
  have hsix : log.length = 6 := by
    have hlengths := congrArg List.length hqueries
    rw [List.length_map] at hlengths
    exact hlengths.trans (by decide +kernel)
  exact ⟨_, hc, hcreated, ⟨log, hlog, hqueries, hsix, haccounts⟩, hlearn⟩

end Session

end Exemplar
