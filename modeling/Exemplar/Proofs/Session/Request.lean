import Exemplar.Proofs.Session.Reachable
import Exemplar.Proofs.Verification.Certificate

/-!
# What a request answers

**A request with verification tries the strategies in the order of their ranking and stops right after the
first whose candidate is admissible. This candidate is the answer, and it reproduces every example**
(`request_resolves`).
-/

namespace Exemplar

namespace Request

variable {q : Request} {timing : Timing} {number : Nat} {ks : List Strategy} {t : Trial}

/-! ## The course of a request -/

theorem course_of_success {k : Strategy} (h : (q.trial timing number k).succeeds q = true) :
    q.course timing number (k :: ks) = [q.trial timing number k] := by
  rw [course, if_pos h]

theorem course_of_failure {k : Strategy} (h : (q.trial timing number k).succeeds q = false) :
    q.course timing number (k :: ks) =
      q.trial timing number k :: q.course timing (number + 1) ks := by
  rw [course, if_neg (by simp [h])]

theorem numbers_course (number : Nat) (ks : List Strategy) :
    (q.course timing number ks).map Trial.number =
      List.range' number (q.course timing number ks).length := by
  induction ks generalizing number with
  | nil => rfl
  | cons k ks ih =>
    cases h : (q.trial timing number k).succeeds q with
    | true => rw [course_of_success h]; rfl
    | false =>
      rw [course_of_failure h, List.map_cons, ih, List.length_cons, List.range'_succ]
      rfl

theorem mem_course (h : t ∈ q.course timing number ks) :
    t.strategy ∈ ks ∧ t.returned = t.strategy.attempt
      (timing.clock t.number q.settings.timeBudget) q.table q.settings q.examples := by
  induction ks generalizing number with
  | nil => cases h
  | cons k ks ih =>
    rw [course] at h
    rcases List.mem_cons.mp h with rfl | h
    · exact ⟨List.mem_cons_self, rfl⟩
    · split at h
      · cases h
      · obtain ⟨hmem, hreturned⟩ := ih h
        exact ⟨List.mem_cons_of_mem _ hmem, hreturned⟩

/-- The trials follow the row of strategies, and if they do not come to its end, the last one has
succeeded. -/
theorem exists_strategies_course_append (q : Request) (timing : Timing) (number : Nat)
    (ks : List Strategy) :
    ∃ rest, ks = (q.course timing number ks).map Trial.strategy ++ rest ∧
      (rest = [] ∨ ∃ t, (q.course timing number ks).getLast? = some t ∧ t.succeeds q = true) := by
  induction ks generalizing number with
  | nil => exact ⟨[], rfl, .inl rfl⟩
  | cons k ks ih =>
    cases h : (q.trial timing number k).succeeds q with
    | true =>
      rw [course_of_success h]
      exact ⟨ks, rfl, .inr ⟨_, rfl, h⟩⟩
    | false =>
      rw [course_of_failure h]
      obtain ⟨rest, hks, hend⟩ := ih (number + 1)
      refine ⟨rest, congrArg (k :: ·) hks, hend.imp_right ?_⟩
      rintro ⟨t, hlast, ht⟩
      exact ⟨t, by simp [List.getLast?_cons, hlast], ht⟩

theorem failed_of_mem_dropLast_course (h : t ∈ (q.course timing number ks).dropLast) :
    t.succeeds q = false := by
  induction ks generalizing number with
  | nil => cases h
  | cons k ks ih =>
    cases hk : (q.trial timing number k).succeeds q with
    | true =>
      rw [course_of_success hk] at h
      cases h
    | false =>
      rw [course_of_failure hk] at h
      by_cases hlast : q.course timing (number + 1) ks = []
      · rw [hlast] at h
        cases h
      · rw [List.dropLast_cons_of_ne_nil hlast] at h
        rcases List.mem_cons.mp h with rfl | h
        · exact hk
        · exact ih h

/-! ## What is known after some trials -/

theorem collect_append (ts : List Trial) (t : Trial) :
    q.collect timing (ts ++ [t]) = q.note timing (q.collect timing ts) t := by
  rw [collect, List.foldl_append]
  rfl

theorem attempts_collect (ts : List Trial) :
    (q.collect timing ts).attempts = ts.map (Trial.attempt q timing) := by
  induction ts using List.reverseRecOn with
  | nil => rfl
  | append_singleton ts t ih => rw [collect_append, note, Trials.add, ih, List.map_append]; rfl

theorem accepted_collect_of_failed {ts : List Trial} (h : ∀ t ∈ ts, t.succeeds q = false) :
    (q.collect timing ts).accepted = none := by
  induction ts using List.reverseRecOn with
  | nil => rfl
  | append_singleton ts t ih =>
    obtain ⟨hts, ht⟩ := List.forall_mem_append.mp h
    have hsome := isSome_accepted_note q timing (ih hts) t
    rw [ht t (List.mem_singleton_self t)] at hsome
    rw [collect_append]
    simpa using hsome

theorem accepted_note_of_success {known : Trials} (h : t.succeeds q = true) :
    (q.note timing known t).accepted = t.program? q := by
  rw [Trial.succeeds] at h
  rw [note, Trials.add, Trial.attempt]
  cases hstatus : t.status q with
  | accepted verdict => rfl
  | _ => simp [hstatus, AttemptStatus.success] at h

theorem fallback_note_of_failed {known : Trials} (h : t.succeeds q = false) :
    (q.note timing known t).fallback =
      if q.settings.bestEffort then known.fallback.or (t.program? q) else known.fallback := by
  rw [Trial.succeeds, Trial.status] at h
  rw [note, Trials.add, Trial.attempt, Trial.status, Trial.program?]
  cases hreturned : t.returned with
  | error e =>
    rw [judge]
    by_cases hkind : e.kind = .synthesisExhausted <;> simp [hkind]
  | ok c =>
    rw [hreturned, judge] at h
    rw [judge]
    simp only [statusOf] at h ⊢
    split at h
    · cases h
    · rename_i hrejected
      cases hbest : q.settings.bestEffort <;> simp [hrejected]

theorem fallback_collect_of_failed {ts : List Trial} (h : ∀ t ∈ ts, t.succeeds q = false) :
    (q.collect timing ts).fallback =
      if q.settings.bestEffort then ts.findSome? (Trial.program? q) else none := by
  induction ts using List.reverseRecOn with
  | nil => simp [collect, Trials.none]
  | append_singleton ts t ih =>
    obtain ⟨hts, ht⟩ := List.forall_mem_append.mp h
    rw [collect_append, fallback_note_of_failed (ht t (List.mem_singleton_self t)), ih hts,
      List.findSome?_append, List.findSome?_singleton]
    cases q.settings.bestEffort <;> rfl

/-! ## The answer -/

theorem program?_eq (q : Request) (t : Trial) :
    t.program? q = t.returned.toOption.map (q.program t.strategy.name) := by
  rw [Trial.program?]
  cases t.returned <;> rfl

theorem program?_eq_some_iff {p : Program} :
    t.program? q = some p ↔ ∃ c, t.returned = .ok c ∧ p = q.program t.strategy.name c := by
  rw [program?_eq]
  cases t.returned <;> simp [Except.toOption, eq_comm]

theorem program?_eq_none_iff : t.program? q = none ↔ ∀ c, t.returned ≠ .ok c := by
  rw [program?_eq]
  cases t.returned <;> simp [Except.toOption]

theorem answer_collect_of_failed {ts : List Trial} (h : ∀ t ∈ ts, t.succeeds q = false) :
    (q.collect timing ts).answer =
      if q.settings.bestEffort then ts.findSome? (Trial.program? q) else none := by
  rw [Trials.answer, accepted_collect_of_failed h, fallback_collect_of_failed h, Option.none_or]

theorem answer_collect_of_success {c : Candidate} (hreturned : t.returned = .ok c)
    (h : t.succeeds q = true) (ts : List Trial) :
    (q.collect timing (ts ++ [t])).answer = some (q.program t.strategy.name c) := by
  rw [Trials.answer, collect_append, accepted_note_of_success h, program?_eq, hreturned]
  rfl

theorem eq_append_of_success (ht : t ∈ q.course timing number ks) (h : t.succeeds q = true) :
    ∃ ts, q.course timing number ks = ts ++ [t] := by
  have hlast := List.dropLast_append_getLast (List.ne_nil_of_mem ht)
  rw [← hlast] at ht
  rcases List.mem_append.mp ht with ht | ht
  · simp [failed_of_mem_dropLast_course ht] at h
  · rw [List.mem_singleton.mp ht]
    exact ⟨_, hlast.symm⟩

/-! ## Verification -/

/-- What a strategy returned is a candidate that is admissible for the request. -/
def Admits (q : Request) (r : Except Error Candidate) : Prop :=
  ∃ c, r = .ok c ∧
    (Verification.verify q.table q.settings q.features.signature q.examples c.term).admissible = true

theorem certificate_program (hverify : q.verify = true) (name : String) (c : Candidate) :
    (q.program name c).certificate =
      some (Verification.verify q.table q.settings q.features.signature q.examples c.term) := by
  rw [program, if_pos hverify]

theorem succeeds_iff (hverify : q.verify = true) : t.succeeds q = true ↔ q.Admits t.returned := by
  rw [Trial.succeeds, Trial.status, Admits]
  cases hreturned : t.returned with
  | error e =>
    rw [judge]
    split <;> simp [AttemptStatus.success]
  | ok c =>
    simp only [judge, statusOf, accepts, certificate_program hverify, Except.ok.injEq,
      exists_eq_left']
    split
    · simp [AttemptStatus.success, *]
    · split <;> simp [AttemptStatus.success, *]

theorem call_of_admissible {name : String} {c : Candidate}
    (h : (Verification.verify q.table q.settings q.features.signature q.examples
      c.term).admissible = true) :
    ∀ ex ∈ q.examples, (q.program name c).call ex.inputs = .ok ex.output :=
  (Verification.admissible_iff.mp h).1

end Request

namespace Session

/-- A request is resolved by some trials, with an answer, and leaves a session behind. -/
structure Resolves (q : Request) (s : Session) (ts : List Trial) (answer : Option Program)
    (s' : Session) : Prop where
  /-- The trials are in the order of the ranking, and end with it or with an admissible candidate. -/
  ranked : ∃ rest, (s.learner.rank q.features.bucket).1 = ts.map (·.strategy.name) ++ rest ∧
    (rest = [] ∨ ∃ t, ts.getLast? = some t ∧ q.Admits t.returned)
  /-- There is no admissible candidate before the last trial. -/
  stopped : ∀ t ∈ ts.dropLast, ¬ q.Admits t.returned
  numbered : ts.map Trial.number = List.range' s.tally.strategyAttempts ts.length
  /-- Every trial is of a strategy that is known, and is what this strategy returned. -/
  returned : ∀ t ∈ ts, t.strategy ∈ s.strategies ∧ s.learner.knows t.strategy.name = true ∧
    t.returned = t.strategy.attempt (s.timing.clock t.number q.settings.timeBudget) q.table q.settings
      q.examples
  /-- A trial counts as a success if and only if its candidate is admissible. -/
  succeeds_iff : ∀ t ∈ ts, t.succeeds q = true ↔ q.Admits t.returned
  /-- The trials, and no others, are entered into the journal. -/
  recorded : ∃ entry, s'.history = Recent.push s.settings.maxRecords s.history entry ∧
    entry.attempts = ts.map (Trial.attempt q s.timing)
  /-- The trials, and no others, are reported to the learner, each once. -/
  reported : s'.learner = ts.foldl (q.teach s.timing) (s.learner.rank q.features.bucket).2
  /-- An admissible candidate is the answer. -/
  accepted : ∀ t ∈ ts, ∀ c, t.returned = .ok c → q.Admits t.returned →
    answer = some (q.program t.strategy.name c)
  /-- An admissible answer is the candidate of the last trial, and reproduces the examples. -/
  admissible : ∀ p certificate, answer = some p → p.certificate = some certificate →
    certificate.admissible = true →
      (∃ t c, ts.getLast? = some t ∧ t.returned = .ok c ∧ p = q.program t.strategy.name c) ∧
        ∀ ex ∈ q.examples, p.call ex.inputs = .ok ex.output
  none_iff : answer = none ↔ (∀ t ∈ ts, ¬ q.Admits t.returned) ∧
    (q.settings.bestEffort = false ∨ ∀ t ∈ ts, ∀ c, t.returned ≠ .ok c)
  /-- Under best effort the first candidate is the answer if none is admissible. -/
  bestEffort : q.settings.bestEffort = true → (∀ t ∈ ts, ¬ q.Admits t.returned) →
    answer = ts.findSome? fun t => t.returned.toOption.map (q.program t.strategy.name)

theorem trials_ranked {q : Request} {s : Session} (hs : s.Staffed) :
    ∃ rest, (s.learner.rank q.features.bucket).1 = (s.trials q).map (·.strategy.name) ++ rest ∧
      (rest = [] ∨ ∃ t, (s.trials q).getLast? = some t ∧ t.succeeds q = true) := by
  obtain ⟨rest, hks, hend⟩ := Request.exists_strategies_course_append q s.timing
    s.tally.strategyAttempts ((s.learner.rank q.features.bucket).1.filterMap s.strategy?)
  refine ⟨rest.map Strategy.name, ?_, hend.imp_left (congrArg (List.map Strategy.name))⟩
  rw [← hs.ranked, hks, List.map_append, List.map_map]
  rfl

theorem trials_returned {q : Request} {s : Session} (hs : s.Staffed) : ∀ t ∈ s.trials q,
    t.strategy ∈ s.strategies ∧ s.learner.knows t.strategy.name = true ∧ t.returned =
      t.strategy.attempt (s.timing.clock t.number q.settings.timeBudget) q.table q.settings
        q.examples := by
  intro t ht
  obtain ⟨hmem, hreturned⟩ := Request.mem_course ht
  obtain ⟨name, -, hname⟩ := List.mem_filterMap.mp hmem
  exact ⟨List.mem_of_find?_eq_some hname, hs.knows_of_strategy? hname, hreturned⟩

theorem answer_of_success {q : Request} {s : Session} {t : Trial} (ht : t ∈ s.trials q)
    (h : t.succeeds q = true) {c : Candidate} (hreturned : t.returned = .ok c) :
    (s.trials q).getLast? = some t ∧
      (q.collect s.timing (s.trials q)).answer = some (q.program t.strategy.name c) := by
  obtain ⟨ts, hts⟩ := Request.eq_append_of_success ht h
  rw [trials, hts]
  exact ⟨List.getLast?_concat, Request.answer_collect_of_success hreturned h ts⟩

theorem exists_of_answer {q : Request} {s : Session} {p : Program}
    (h : (q.collect s.timing (s.trials q)).answer = some p) :
    ∃ t ∈ s.trials q, ∃ c, t.returned = .ok c ∧ p = q.program t.strategy.name c := by
  by_cases hsome : ∃ t ∈ s.trials q, t.succeeds q = true
  · obtain ⟨t, ht, hsuccess⟩ := hsome
    obtain ⟨p', hp'⟩ := Option.isSome_iff_exists.mp (Request.judge_success hsuccess)
    obtain ⟨c, hreturned, -⟩ := Request.program?_eq_some_iff.mp hp'
    obtain ⟨-, hanswer⟩ := answer_of_success ht hsuccess hreturned
    exact ⟨t, ht, c, hreturned, Option.some.inj (h.symm.trans hanswer)⟩
  · rw [Request.answer_collect_of_failed (by simpa using hsome)] at h
    split at h
    · obtain ⟨t, ht, hp⟩ := List.exists_of_findSome?_eq_some h
      exact ⟨t, ht, Request.program?_eq_some_iff.mp hp⟩
    · cases h

theorem answered_resolves {q : Request} {s : Session} (hs : s.Staffed) (hverify : q.verify = true) :
    Resolves q s (s.trials q) (q.collect s.timing (s.trials q)).answer (s.answered q) := by
  have hsucceeds (t : Trial) : t.succeeds q = true ↔ q.Admits t.returned :=
    Request.succeeds_iff hverify
  have hfails (t : Trial) : t.succeeds q = false ↔ ¬ q.Admits t.returned := by
    rw [← hsucceeds, Bool.not_eq_true]
  constructor
  case ranked =>
    obtain ⟨rest, hrank, hend⟩ := trials_ranked (q := q) hs
    simp only [hsucceeds] at hend
    exact ⟨rest, hrank, hend⟩
  case stopped => exact fun t ht => (hfails t).mp (Request.failed_of_mem_dropLast_course ht)
  case numbered => exact Request.numbers_course _ _
  case returned => exact trials_returned hs
  case succeeds_iff => exact fun t _ => hsucceeds t
  case recorded => exact ⟨_, rfl, Request.attempts_collect _⟩
  case reported => rfl
  case accepted =>
    intro t ht c hreturned hadmits
    exact (answer_of_success ht ((hsucceeds t).mpr hadmits) hreturned).2
  case admissible =>
    intro p certificate hp hcertificate hadmissible
    obtain ⟨t, ht, c, hreturned, rfl⟩ := exists_of_answer hp
    have hc := Option.some.inj ((Request.certificate_program hverify _ c).symm.trans hcertificate)
    rw [← hc] at hadmissible
    have hadmits : q.Admits t.returned := ⟨c, hreturned, hadmissible⟩
    obtain ⟨hlast, -⟩ := answer_of_success ht ((hsucceeds t).mpr hadmits) hreturned
    exact ⟨⟨t, c, hlast, hreturned, rfl⟩, Request.call_of_admissible hadmissible⟩
  case none_iff =>
    by_cases hsome : ∃ t ∈ s.trials q, q.Admits t.returned
    · obtain ⟨t, ht, c, hreturned, hc⟩ := hsome
      have hadmits : q.Admits t.returned := ⟨c, hreturned, hc⟩
      obtain ⟨-, hanswer⟩ := answer_of_success ht ((hsucceeds t).mpr hadmits) hreturned
      rw [hanswer]
      exact ⟨fun h => (Option.some_ne_none _ h).elim, fun h => (h.1 t ht hadmits).elim⟩
    · have hnone : ∀ t ∈ s.trials q, ¬ q.Admits t.returned := fun t ht h => hsome ⟨t, ht, h⟩
      rw [Request.answer_collect_of_failed fun t ht => (hfails t).mpr (hnone t ht)]
      simp only [iff_true_intro hnone, true_and]
      cases q.settings.bestEffort with
      | false => simp
      | true => simp [Request.program?_eq_none_iff]
  case bestEffort =>
    intro hbest hnone
    have hfailed : ∀ t ∈ s.trials q, t.succeeds q = false :=
      fun t ht => (hfails t).mpr (hnone t ht)
    rw [Request.answer_collect_of_failed hfailed, if_pos hbest]
    simp only [← Request.program?_eq]

/-- **What a request answers**, in every session that can come about, for all valid settings, all examples
that are accepted, and whatever the strategies return. `solve` poses it under the settings of the session,
and `synthesize` under overridden ones. -/
theorem request_resolves {s : Session} (hs : s.Reachable) {settings : Settings}
    (hsettings : settings.validate = .ok ()) {examples : List Example} {features : Features}
    (hexamples : Features.ofExamples examples = .ok features) (table : Table) :
    ∃ ts answer s', s.perform (request settings true table examples) = (.ok answer, s') ∧
      Resolves ⟨settings, true, table, examples, features⟩ s ts answer s' := by
  refine ⟨_, _, _, ?_, answered_resolves hs.staffed rfl⟩
  rw [perform_request hs.staffed, hsettings, hexamples]

/-- A strategy that always proposes the first primitive on the first input. -/
def stubborn : Strategy := ⟨"stubborn", fun _ _ _ _ => .ok ⟨.apply 0 [.var 0], 2, false⟩⟩

/-- A session with a strategy that proposes negation for every problem. -/
theorem request_resolves_stubborn :
    let catalog := Catalog.ofBuiltins [.neg] 64 .standard
    let examples : List Example := [⟨[.int 1], .int (-1)⟩, ⟨[.int 2], .int (-2)⟩]
    let features : Features := ⟨⟨[.int], .int⟩, 2, 2⟩
    ∃ s : Session, s.strategies = Strategy.standard ++ [stubborn] ∧ s.Reachable ∧
      Settings.standard.validate = .ok () ∧ Features.ofExamples examples = .ok features ∧
      ∃ ts answer s', s.perform (request .standard true catalog.table examples) = (.ok answer, s') ∧
        Resolves ⟨.standard, true, catalog.table, examples, features⟩ s ts answer s' := by
  intro catalog examples features
  have hsettings : Settings.standard.validate = .ok () := by decide +kernel
  have hexamples : Features.ofExamples examples = .ok features := rfl
  have hcreated : ofCatalog catalog .standard .instant =
      .ok (Strategy.standard.foldl addStrategy (bare catalog .standard .instant)) :=
    ofCatalog_eq_ok.mpr ⟨hsettings, by decide, rfl⟩
  have hs := (Reachable.created hcreated).extended stubborn
  exact ⟨_, rfl, hs, hsettings, hexamples, request_resolves hs hsettings hexamples catalog.table⟩

end Session

end Exemplar
