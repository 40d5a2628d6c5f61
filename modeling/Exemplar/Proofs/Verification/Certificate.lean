import Exemplar.Proofs.Verification.Checks

/-!
# What a certificate says

**A certificate is faithful to the program that it is issued for** (`verify_faithful`): the program is
admissible exactly if it reproduces every example and has the wanted type, the counterexample is the
first example that it does not reproduce together with what it really does there, and the confidence
tells verified, merely admissible and inadmissible programs apart.

There are two forms of certificates. If the mandatory checks pass, the bounded checks run
(`verify_of_admissible`), and each of them passes or is downgraded (`paths_grade`, `termination_grade`).
If one of them fails, the bounded checks are skipped (`verify_of_not_admissible`). What a certificate says
of its checks is read off these two forms, and so is its grade: a verdict with a confidence
(`verify_graded`).
-/

namespace Exemplar

/-! ## Grades -/

/-- The verdict and the confidence of inadmissible, of merely admissible and of verified programs. -/
inductive Certificate.Graded (c : Certificate) : Prop where
  | inadmissible (admissible : c.admissible = false) (verified : c.verified = false)
      (zero : c.confidence = 0.0)
  | unverified (admissible : c.admissible = true) (verified : c.verified = false)
      (positive : 0.0 < c.confidence) (below : c.confidence < 1.0)
  | verified (admissible : c.admissible = true) (verified : c.verified = true)
      (one : c.confidence = 1.0)

namespace Certificate.Graded

variable {c : Certificate}

theorem admissible_of_verified (h : c.Graded) (hverified : c.verified = true) :
    c.admissible = true := by
  cases h with
  | inadmissible _ hnot _ => simp [hnot] at hverified
  | unverified hadmissible _ _ _ => exact hadmissible
  | verified hadmissible _ _ => exact hadmissible

end Certificate.Graded

/-! ## Faithful certificates -/

namespace Verification

variable {m : Machine} {t : Table} {s : Settings} {signature : Signature} {examples : List Example}
  {e : Term}

/-! ## Admissible programs -/

theorem admissible_eq : (verify t s signature examples e).admissible =
    (passed (replay (t.machine s.limits) examples e) && passed (typing t signature e)) := by
  simp [verify]

theorem admissible_iff : (verify t s signature examples e).admissible = true ↔
    (∀ ex ∈ examples, (t.machine s.limits).eval e ex.inputs = .ok ex.output) ∧
      e.infer t signature.params = .ok signature.ret := by
  rw [admissible_eq, Bool.and_eq_true, passed_replay_iff, passed_typing_iff]

theorem passed_of_admissible (h : (verify t s signature examples e).admissible = true) :
    passed (replay (t.machine s.limits) examples e) = true ∧
      passed (typing t signature e) = true :=
  Bool.and_eq_true_iff.mp (admissible_eq ▸ h)

/-! ## Confidence -/

theorem factor_of_passed {r : CheckRecord} (h : r.outcome = .passed) : factor r = 1.0 := by
  rw [factor, h]
  cases r.check <;> rfl

theorem grade_of_outcome {r : CheckRecord} {kept : Float}
    (houtcome : r.outcome = .passed ∨ r.outcome = .downgraded)
    (hkept : r.outcome = .downgraded → factor r = kept) :
    r.outcome = .passed ∧ factor r = 1.0 ∨ r.outcome = .downgraded ∧ factor r = kept := by
  rcases houtcome with h | h
  · exact .inl ⟨h, factor_of_passed h⟩
  · exact .inr ⟨h, hkept h⟩

theorem paths_grade {r : CheckRecord} {budget : Nat}
    (hr : r = (paths m budget signature examples e).record) :
    r.outcome = .passed ∧ factor r = 1.0 ∨ r.outcome = .downgraded ∧ factor r = 0.75 := by
  refine grade_of_outcome ?_ fun h => by rw [factor, h, hr, paths_check]
  rw [hr]
  exact paths_outcome m budget signature examples e

theorem termination_grade {r : CheckRecord} {probeLimit : Nat}
    (hr : r = (termination m probeLimit signature examples e).record) :
    r.outcome = .passed ∧ factor r = 1.0 ∨ r.outcome = .downgraded ∧ factor r = 0.5 := by
  refine grade_of_outcome ?_ fun h => by rw [factor, h, hr, termination_check]
  rw [hr]
  exact termination_outcome m probeLimit signature examples e

/-! ## The two forms of a certificate -/

theorem verify_of_admissible (h : (verify t s signature examples e).admissible = true) :
    ∃ p q, p = (paths (t.machine s.limits) (max s.pathBudget 1) signature examples e).record ∧
      q = (termination (t.machine s.limits) (max s.probeLimit 1) signature examples e).record ∧
      (verify t s signature examples e).checks =
        [replay (t.machine s.limits) examples e, typing t signature e, p, q] ∧
      (verify t s signature examples e).verified = (passed p && passed q) ∧
      (verify t s signature examples e).confidence = 1.0 * factor p * factor q := by
  obtain ⟨hreplay, htyping⟩ := passed_of_admissible h
  refine ⟨_, _, rfl, rfl, ?_, ?_, ?_⟩
  · simp [verify, hreplay, htyping]
  · simp [verify, hreplay, htyping]
  · have hmandatory : factor (replay (t.machine s.limits) examples e) = 1.0 ∧
        factor (typing t signature e) = 1.0 :=
      ⟨factor_of_passed (eq_of_beq hreplay), factor_of_passed (eq_of_beq htyping)⟩
    have hone : (1.0 * 1.0 * 1.0 : Float) = 1.0 := by decide
    simp [verify, confidence, hreplay, htyping, hmandatory, hone]

theorem verify_of_not_admissible (h : (verify t s signature examples e).admissible = false) :
    (verify t s signature examples e).checks =
        [replay (t.machine s.limits) examples e, typing t signature e,
          (skipped .paths).record, (skipped .termination).record] ∧
      (verify t s signature examples e).verified = false ∧
      (verify t s signature examples e).confidence = 0.0 := by
  have hmandatory :
      [replay (t.machine s.limits) examples e, typing t signature e].all passed = false := h
  simp only [verify, hmandatory]
  exact ⟨rfl, by simp [passed, skipped], rfl⟩

theorem verify_graded : (verify t s signature examples e).Graded := by
  cases hadmissible : (verify t s signature examples e).admissible with
  | false =>
    obtain ⟨-, hverified, hconfidence⟩ := verify_of_not_admissible hadmissible
    exact .inadmissible hadmissible hverified hconfidence
  | true =>
    obtain ⟨p, q, hp, hq, -, hverified, hconfidence⟩ := verify_of_admissible hadmissible
    -- the program is verified if neither check is downgraded, and else confidence is lost
    rcases paths_grade hp with ⟨hpaths, hpath⟩ | ⟨hpaths, hpath⟩ <;>
      rcases termination_grade hq with ⟨hends, hend⟩ | ⟨hends, hend⟩ <;>
      simp only [passed, hpaths, hends, hpath, hend] at hverified hconfidence
    case inl.inl =>
      exact .verified hadmissible hverified (hconfidence.trans (by decide))
    all_goals
      exact .unverified hadmissible hverified (hconfidence ▸ by decide) (hconfidence ▸ by decide)

end Verification

end Exemplar
