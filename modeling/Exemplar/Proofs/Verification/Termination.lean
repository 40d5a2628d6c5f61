import Exemplar.Proofs.Probe
import Exemplar.Proofs.Verification.Checks

/-!
# What a passed termination check excludes

**If the termination check passes, the program has a value on every example, and its iteration is not
cut off on any probe tuple; if the program reaches the fixpoint operation, calls do not nest too deep
there either** (`passed_termination`).

A program that does not reach the fixpoint operation passes without a run on the probe tuples. That is
enough to exclude a cut-off iteration, since an evaluation applies reachable primitives only
(`eval_ne_fixpointDiverged`), whatever the bodies of the table are. It does not exclude calls that nest
too deep: a body that calls itself reaches no fixpoint operation (`countdown_passes`).
-/

namespace Exemplar

namespace Machine

variable {m : Machine} {inputs : List Value} {e : Term}

/-- **An evaluation that cannot reach the fixpoint operation is not cut off in its iteration.** -/
theorem eval_ne_fixpointDiverged (hfix : e.reachesFix m.table = false)
    (hinputs : Value.AllWithin (· ∈ m.table.reach e.primitives) inputs) (cap : Nat) :
    m.eval e inputs ≠ .error (.fixpointDiverged cap) := by
  have hnone : ∀ id ∈ m.table.reach e.primitives, m.table.builtin? id ≠ some .fix := by
    simpa [Term.reachesFix] using hfix
  -- the machine is compared with itself, for the faults that such an agreement allows
  have hsimilar : Similar (.exact fun f => ∀ cap, f ≠ .fixpointDiverged cap)
      (· ∈ m.table.reach e.primitives) m m := by
    refine ⟨fun _ => .inl rfl, fun _ _ => rfl, m.table.reach_closed e.primitives, ?_, ?_⟩
    · rintro f hf
      refine ⟨rfl, ?_⟩
      rintro cap rfl
      simp [Fault.nonTermination] at hf
    · exact fun id hid hfix => absurd hfix (hnone id hid)
  have hagree : Agree _ _ (m.eval e inputs) (m.eval e inputs) :=
    evalAt_agree hsimilar (.inr ⟨rfl, rfl, by simp⟩) hinputs fun id hid => Table.subset_reach hid
  exact fun heval => hagree.allowed_of_exact heval cap rfl

end Machine

namespace Verification

variable {t : Table} {s : Settings} {signature : Signature} {examples : List Example} {e : Term}

theorem nonTermination_of_diverges {m : Machine} {row : List Value} (h : diverges m e row = false)
    {f : Fault} (hf : m.eval e row = .error f) : f.nonTermination = false := by
  rwa [diverges, hf] at h

/-- **A passed termination check.** The evaluation of the program is not cut off on an example. On a
probe tuple its iteration is not cut off, and calls do not nest too deep if the program reaches the
fixpoint operation. -/
theorem passed_termination
    (hpassed : (verify t s signature examples e).outcomeOf? .termination = some .passed) :
    (∀ ex ∈ examples, ∀ f, (t.machine s.limits).eval e ex.inputs = .error f →
      f.nonTermination = false) ∧
    ∀ row ∈ Probe.inputs signature.params (max s.probeLimit 1),
      (∀ cap, (t.machine s.limits).eval e row ≠ .error (.fixpointDiverged cap)) ∧
      (e.reachesFix t = true →
        ∀ limit, (t.machine s.limits).eval e row ≠ .error (.callDepthExceeded limit)) := by
  rw [outcomeOf_termination] at hpassed
  split at hpassed
  case isFalse => simp at hpassed
  rename_i hmandatory
  obtain ⟨hreplay, -⟩ := Bool.and_eq_true_iff.mp hmandatory
  have houtcome := Option.some.inj hpassed
  constructor
  · intro ex hex f hf
    rw [replay_passed hreplay ex hex] at hf
    cases hf
  · intro row hrow
    cases hfix : e.reachesFix t with
    | false =>
      -- here the check passed without a trial, so the reason has to come from what is reachable
      refine ⟨Machine.eval_ne_fixpointDiverged hfix (Probe.within_of_mem_inputs hrow), ?_⟩
      intro h
      cases h
    | true =>
      have hend : ∀ f, (t.machine s.limits).eval e row = .error f → f.nonTermination = false :=
        fun f => nonTermination_of_diverges
          (termination_passed hfix houtcome row (List.mem_append_right _ hrow))
      refine ⟨fun cap h => ?_, fun _ limit h => ?_⟩
      · have hf := hend _ h
        cases hf
      · have hf := hend _ h
        cases hf

/-- An iteration inside a body that settles on every probe tuple: it is the identity after one step. -/
theorem passed_termination_settles :
    let t := Table.builtins.push (.ofBody 23 "settle" ⟨[.int], .int⟩
      (.apply 15 [.lit (.func (.primitive 13)), .var 0]) 1)
    let e : Term := .apply 23 [.var 0]
    let examples : List Example := [⟨[.int 4], .int 4⟩]
    (verify t .standard ⟨[.int], .int⟩ examples e).outcomeOf? .termination = some .passed ∧
    (∀ ex ∈ examples, ∀ f, (t.machine Settings.standard.limits).eval e ex.inputs = .error f →
      f.nonTermination = false) ∧
    ∀ row ∈ Probe.inputs [.int] (max Settings.standard.probeLimit 1),
      (∀ cap, (t.machine Settings.standard.limits).eval e row ≠ .error (.fixpointDiverged cap)) ∧
      (e.reachesFix t = true → ∀ limit,
        (t.machine Settings.standard.limits).eval e row ≠ .error (.callDepthExceeded limit)) := by
  intro t e examples
  have hpassed : (verify t .standard ⟨[.int], .int⟩ examples e).outcomeOf? .termination =
      some .passed := by decide +kernel
  exact ⟨hpassed, passed_termination hpassed⟩

/-- A body that counts down to zero by calling itself, which never ends below zero. -/
def countdown : Table :=
  ⟨#[.ofBuiltin 0 .cond, .ofBuiltin 1 .eq, .ofBuiltin 2 .sub,
    .ofBody 3 "countdown" ⟨[.int], .int⟩
      (.apply 0 [.apply 1 [.var 0, .lit (.int 0)], .lit (.int 0),
        .apply 3 [.apply 2 [.var 0, .lit (.int 1)]]]) 1]⟩

/-- The check passes, although on a probe tuple calls nest too deep. -/
theorem countdown_passes :
    Problem.signature [⟨[.int 0], .int 0⟩, ⟨[.int 3], .int 0⟩] = .ok ⟨[.int], .int⟩ ∧
    (verify countdown .standard ⟨[.int], .int⟩ [⟨[.int 0], .int 0⟩, ⟨[.int 3], .int 0⟩]
      (.apply 3 [.var 0])).outcomeOf? .termination = some .passed ∧
    [.int (-1)] ∈ Probe.inputs [.int] (max Settings.standard.probeLimit 1) ∧
    (countdown.machine Settings.standard.limits).eval (.apply 3 [.var 0]) [.int (-1)] =
      .error (.callDepthExceeded 64) :=
  ⟨rfl, by decide +kernel, by decide, by decide +kernel⟩

end Verification

end Exemplar
