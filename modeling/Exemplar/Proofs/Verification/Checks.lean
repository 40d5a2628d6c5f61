import Exemplar.Verification.Verify

/-!
# The checks of a program

What the outcome of each check says of the program: the replay passes if every example is reproduced
(`passed_replay_iff`), and else there is a counterexample, the first example that is not
(`counterexample?_eq_some_iff`); the typing passes if the program has the wanted type
(`passed_typing_iff`). The two bounded checks do not fail: they pass or are downgraded (`paths_outcome`,
`termination_outcome`).

A certificate has the outcomes of the bounded checks if both mandatory ones passed, and notes that they
were skipped if not (`outcomeOf_paths`, `outcomeOf_termination`).
-/

namespace Exemplar

namespace Verification

variable {m : Machine} {t : Table} {s : Settings} {signature : Signature} {examples : List Example}
  {e : Term}

/-! ## Replay and typing -/

theorem mismatch?_eq_none_iff {ex : Example} :
    mismatch? m e ex = none ↔ m.eval e ex.inputs = .ok ex.output := by
  rw [mismatch?]
  split
  · rename_i v hv
    simp [hv]
  · rename_i f hf
    simp [hf]

theorem counterexample?_eq_none_iff :
    counterexample? m examples e = none ↔ ∀ ex ∈ examples, m.eval e ex.inputs = .ok ex.output := by
  simp [counterexample?, mismatch?_eq_none_iff]

theorem replay_outcome : (replay m examples e).outcome =
    if counterexample? m examples e = none then .passed else .failed := by
  rw [replay]
  split <;> simp [*]

theorem passed_replay_iff : passed (replay m examples e) = true ↔
    ∀ ex ∈ examples, m.eval e ex.inputs = .ok ex.output := by
  rw [passed, replay_outcome, ← counterexample?_eq_none_iff]
  split <;> simp [*]

theorem replay_passed (h : passed (replay m examples e) = true) :
    ∀ ex ∈ examples, m.eval e ex.inputs = .ok ex.output := passed_replay_iff.mp h

theorem passed_typing_iff : passed (typing t signature e) = true ↔
    e.infer t signature.params = .ok signature.ret := by
  rw [passed, typing]
  split
  · rename_i ty hty
    by_cases hret : ty = signature.ret
    · simp [hty, hret]
    · simp [hty, hret]
  · rename_i cause hcause
    simp [hcause]

/-! ## Bounded checks -/

theorem paths_outcome (m : Machine) (budget : Nat) (signature : Signature) (examples : List Example)
    (e : Term) : (paths m budget signature examples e).record.outcome = .passed ∨
      (paths m budget signature examples e).record.outcome = .downgraded := by
  rw [paths]
  split
  · exact .inl rfl
  · simp only
    split
    · exact .inl rfl
    · exact .inr rfl

theorem paths_passed_iff {budget : Nat} :
    (paths m budget signature examples e).record.outcome = .passed ↔
      e.sites m.table = [] ∨ (PathReport.explore m budget signature.ret examples e).clean = true := by
  rw [paths]
  split
  · rename_i hnone
    simp [List.isEmpty_iff.mp hnone]
  · rename_i hsome
    rw [List.isEmpty_iff] at hsome
    simp [hsome]

theorem paths_passed {budget : Nat} {site : Term.Path} (hsite : site ∈ e.sites m.table)
    (h : (paths m budget signature examples e).record.outcome = .passed) :
    (PathReport.explore m budget signature.ret examples e).clean = true := by
  rcases paths_passed_iff.mp h with hnone | hclean
  · simp [hnone] at hsite
  · exact hclean

theorem termination_outcome (m : Machine) (probeLimit : Nat) (signature : Signature)
    (examples : List Example) (e : Term) :
    (termination m probeLimit signature examples e).record.outcome = .passed ∨
      (termination m probeLimit signature examples e).record.outcome = .downgraded := by
  rw [termination]
  split
  · exact .inl rfl
  · split
    · exact .inl rfl
    · exact .inr rfl

theorem termination_passed {probeLimit : Nat} (hfix : e.reachesFix m.table = true)
    (h : (termination m probeLimit signature examples e).record.outcome = .passed) :
    ∀ row ∈ trials probeLimit signature examples, diverges m e row = false := by
  rw [termination, hfix] at h
  simp only [Bool.not_true, Bool.false_eq_true, if_false] at h
  split at h
  · rename_i hnone
    intro row hrow
    simpa using List.filter_eq_nil_iff.mp hnone row hrow
  · cases h

/-! ## Outcomes in a certificate -/

theorem replay_check (m : Machine) : (replay m examples e).check = .replay := by
  rw [replay]
  split <;> rfl

theorem typing_check : (typing t signature e).check = .typing := by
  rw [typing]
  split
  · split <;> rfl
  · rfl

theorem paths_check (m : Machine) (budget : Nat) :
    (paths m budget signature examples e).record.check = .paths := by
  rw [paths]
  split <;> rfl

theorem termination_check (m : Machine) (probeLimit : Nat) :
    (termination m probeLimit signature examples e).record.check = .termination := by
  rw [termination]
  split
  · rfl
  · split <;> rfl

theorem outcomeOf_paths : (verify t s signature examples e).outcomeOf? .paths =
    some (if passed (replay (t.machine s.limits) examples e) && passed (typing t signature e) then
      (paths (t.machine s.limits) (max s.pathBudget 1) signature examples e).record.outcome
    else .skipped) := by
  simp only [verify, Certificate.outcomeOf?, List.all_cons, List.all_nil, Bool.and_true]
  split <;> simp [replay_check, typing_check, paths_check, skipped]

theorem outcomeOf_termination : (verify t s signature examples e).outcomeOf? .termination =
    some (if passed (replay (t.machine s.limits) examples e) && passed (typing t signature e) then
      (termination (t.machine s.limits) (max s.probeLimit 1) signature examples e).record.outcome
    else .skipped) := by
  simp only [verify, Certificate.outcomeOf?, List.all_cons, List.all_nil, Bool.and_true]
  split <;> simp [replay_check, typing_check, paths_check, termination_check, skipped]

end Verification

end Exemplar
