import Exemplar.Proofs.Enumeration.Balance
import Exemplar.Proofs.Enumeration.Soundness

/-!
# Enumeration with larger budgets

**A larger budget does not change an answer** (`run_outlasts`): what an enumeration finds is found with more
sizes, more candidates and a clock that runs out no earlier, after the same candidates. If all sizes were
built without finding anything, then whatever is found with a larger budget is of a size beyond them.

The budgets are looked at when a candidate is counted and when a level is finished. So of two searches that
differ in nothing else, step by step, the one with the smaller budgets is stopped or the other one does the
same (`Outlasts`), and this passes through binds and folds.
-/

namespace Exemplar.Enumeration

variable {k : Task}

def Task.withBudgets (k : Task) (maxSize maxCandidates : Nat) (clock : Clock) : Task :=
  { k with maxSize := maxSize, maxCandidates := maxCandidates, clock := clock }

/-! ## Steps of two searches -/

/-- Either a step is stopped by a budget, or another one does the same. -/
def Outlasts (r' r : Step) : Prop :=
  (∃ s reason, r = .error ⟨s, .stopped reason⟩) ∨ r' = r

namespace Outlasts

theorem refl (r : Step) : Outlasts r r := .inr rfl

theorem bind {r r' : Step} {f f' : State → Step} (h : Outlasts r' r)
    (hf : ∀ s, Outlasts (f' s) (f s)) : Outlasts (r' >>= f') (r >>= f) := by
  rcases h with ⟨s, reason, rfl⟩ | rfl
  · exact .inl ⟨s, reason, rfl⟩
  · cases r' with
    | error halted => exact .refl (.error halted)
    | ok s => exact hf s

theorem foldlM {α : Type} {f f' : State → α → Step} (hf : ∀ s x, Outlasts (f' s x) (f s x))
    (xs : List α) (s : State) : Outlasts (xs.foldlM f' s) (xs.foldlM f s) := by
  induction xs generalizing s with
  | nil => exact .refl (.ok s)
  | cons x xs ih =>
    rw [List.foldlM_cons, List.foldlM_cons]
    exact (hf s x).bind ih

end Outlasts

section steps

variable {maxSize maxCandidates : Nat} {clock : Clock}
  (hcount : k.maxCandidates ≤ maxCandidates) (hclock : ∀ n, k.clock n = false → clock n = false)
include hclock

theorem checkClock_outlasts (s : State) :
    Outlasts (checkClock (k.withBudgets maxSize maxCandidates clock) s) (checkClock k s) := by
  unfold checkClock
  cases hreading : k.clock s.readings with
  | true => exact .inl ⟨_, _, rfl⟩
  | false =>
    have hlater : (k.withBudgets maxSize maxCandidates clock).clock s.readings = false :=
      hclock _ hreading
    rw [hlater]
    exact .refl _

include hcount

theorem count_outlasts (s : State) :
    Outlasts (count (k.withBudgets maxSize maxCandidates clock) s) (count k s) := by
  unfold count
  by_cases hlimit : k.maxCandidates ≤ s.stats.candidates
  · rw [if_pos hlimit]
    exact .inl ⟨_, _, rfl⟩
  · have hlater : ¬ (k.withBudgets maxSize maxCandidates clock).maxCandidates ≤
        s.stats.candidates := fun hle => hlimit (hcount.trans hle)
    rw [if_neg hlimit, if_neg hlater]
    dsimp only
    split
    · exact checkClock_outlasts hclock _
    · exact .refl _

theorem offer_outlasts (e : Entry) (s : State) :
    Outlasts (offer (k.withBudgets maxSize maxCandidates clock) e s) (offer k e s) :=
  (count_outlasts hcount hclock s).bind fun _ => .refl _

theorem discard_outlasts (s : State) :
    Outlasts (discard (k.withBudgets maxSize maxCandidates clock) s) (discard k s) :=
  (count_outlasts hcount hclock s).bind fun _ => .refl _

theorem considerTerminal_outlasts (s : State) (l : Terminal) :
    Outlasts (considerTerminal (k.withBudgets maxSize maxCandidates clock) s l)
      (considerTerminal k s l) := by
  have hmachine : (k.withBudgets maxSize maxCandidates clock).machine = k.machine := rfl
  have hexamples : (k.withBudgets maxSize maxCandidates clock).examples = k.examples := rfl
  unfold considerTerminal
  rw [hmachine, hexamples]
  split
  · exact offer_outlasts hcount hclock _ s
  · exact discard_outlasts hcount hclock s

theorem considerApplication_outlasts (size : Nat) (p : Primitive) (args : List Entry) (s : State) :
    Outlasts (considerApplication (k.withBudgets maxSize maxCandidates clock) size p args s)
      (considerApplication k size p args s) := by
  have hmachine : (k.withBudgets maxSize maxCandidates clock).machine = k.machine := rfl
  have hexamples : (k.withBudgets maxSize maxCandidates clock).examples = k.examples := rfl
  unfold considerApplication
  rw [hmachine, hexamples]
  split
  · exact offer_outlasts hcount hclock _ s
  · exact discard_outlasts hcount hclock s

omit hclock hcount in
theorem forTuples_outlasts {visit visit' : List Entry → State → Step}
    (hvisit : ∀ args s, Outlasts (visit' args s) (visit args s)) (pools : List (List Entry))
    (chosen : List Entry) (s : State) :
    Outlasts (forTuples visit' pools chosen s) (forTuples visit pools chosen s) := by
  induction pools generalizing chosen s with
  | nil => exact hvisit chosen.reverse s
  | cons pool pools ih => exact Outlasts.foldlM (fun s' e => ih (e :: chosen) s') pool s

theorem compose_outlasts (levels : Array (List Entry)) (size : Nat) (s : State) (p : Primitive) :
    Outlasts (compose (k.withBudgets maxSize maxCandidates clock) levels size s p)
      (compose k levels size s p) := by
  unfold compose
  dsimp only
  split
  · exact .refl _
  · refine Outlasts.foldlM (fun s' split => ?_) _ s
    unfold composeSplit
    dsimp only
    split
    · exact .refl _
    · exact forTuples_outlasts (considerApplication_outlasts hcount hclock size p) _ [] s'

/-! ## Levels of two searches -/

theorem build_outlasts (done : Nat) (s : State) :
    Outlasts (build (k.withBudgets maxSize maxCandidates clock) done s) (build k done s) := by
  cases done with
  | zero => exact Outlasts.foldlM (considerTerminal_outlasts hcount hclock) _ s
  | succ done => exact Outlasts.foldlM (compose_outlasts hcount hclock s.levels (done + 2)) _ s

variable (maxSize) in
theorem through_outlasts (n : Nat) :
    Outlasts (through (k.withBudgets maxSize maxCandidates clock) n) (through k n) := by
  induction n with
  | zero => exact .refl _
  | succ done ih =>
    refine ih.bind fun s => (build_outlasts hcount hclock done s).bind fun s' => ?_
    cases done with
    | zero => exact .refl _
    | succ done => exact checkClock_outlasts hclock _

/-! ## The whole search -/

theorem search_outlasts (hone : 1 ≤ k.maxSize) (hsize : k.maxSize ≤ maxSize) {s : State} {e : Entry}
    (hfound : search k = ⟨s, .found e⟩) :
    search (k.withBudgets maxSize maxCandidates clock) = ⟨s, .found e⟩ := by
  rw [search_eq_found hone] at hfound
  -- a search that found something was not stopped
  rcases through_outlasts maxSize hcount hclock k.maxSize with ⟨_, _, hstop⟩ | hsame
  · cases hfound.symm.trans hstop
  · exact (search_eq_found (hone.trans hsize)).mpr
      (through_eq_error_of_le (hsame.trans hfound) hsize)

theorem search_beyond (hone : 1 ≤ k.maxSize) (hsize : k.maxSize ≤ maxSize) {s s' : State} {e : Entry}
    (hfinished : search k = ⟨s, .stopped .maxSize⟩)
    (hfound : search (k.withBudgets maxSize maxCandidates clock) = ⟨s', .found e⟩) :
    k.maxSize < e.size := by
  rw [search_eq_finished hone] at hfinished
  rw [search_eq_found (hone.trans hsize)] at hfound
  obtain ⟨done, -, hlevel, s₀, hs₀, hbuild⟩ := exists_of_through_eq_found hfound
  by_contra hle
  -- the level of the program is one of those that both searches built
  have hearly : through (k.withBudgets maxSize maxCandidates clock) (done + 1) =
      .error ⟨s', .found e⟩ := by
    rw [through, hs₀]
    exact congrArg (· >>= close _ done) hbuild
  have herror : through (k.withBudgets maxSize maxCandidates clock) k.maxSize =
      .error ⟨s', .found e⟩ := through_eq_error_of_le hearly (by omega)
  rcases through_outlasts maxSize hcount hclock k.maxSize with ⟨_, _, hstop⟩ | hsame
  · cases hfinished.symm.trans hstop
  · cases (hsame.trans hfinished).symm.trans herror

end steps

/-! ## Runs -/

/-- **A larger budget does not change an answer.** What was found is found again, with the same
statistics; and after all sizes were built in vain, only larger programs are found. -/
theorem run_outlasts {m : Machine} {b b' : Bounds} (hints : b'.intConstants = b.intConstants)
    (hsize : b.maxSize ≤ b'.maxSize) (hcount : b.maxCandidates ≤ b'.maxCandidates)
    (hclock : ∀ n, b.clock n = false → b'.clock n = false) {examples : List Example} {out : Outcome}
    (hrun : run m b examples = .ok out) :
    (∀ sol, out.solution = some sol → run m b' examples = .ok out) ∧
    (out.stats.exhaustedBy = some .maxSize → ∃ out', run m b' examples = .ok out' ∧
      ∀ sol, out'.solution = some sol → b.maxSize < sol.size) := by
  obtain ⟨signature, hsig, hne, hmax, rfl⟩ := run_eq_ok.mp hrun
  have hone : 1 ≤ b.maxSize := Nat.one_le_iff_ne_zero.mpr hmax
  have hmax' : b'.maxSize ≠ 0 := Nat.one_le_iff_ne_zero.mp (hone.trans hsize)
  have htask : b'.task m examples signature =
      (b.task m examples signature).withBudgets b'.maxSize b'.maxCandidates b'.clock := by
    simp only [Bounds.task, Task.withBudgets, hints]
  have hrun' : run m b' examples = .ok (search (b'.task m examples signature)).outcome :=
    run_eq_ok.mpr ⟨signature, hsig, hne, hmax', rfl⟩
  constructor
  · intro sol hsol
    cases hsearch : search (b.task m examples signature) with
    | mk s ending =>
      rw [hsearch] at hsol
      cases ending with
      | stopped reason => cases hsol
      | found e => rw [hrun', htask, search_outlasts hcount hclock hone hsize hsearch]
  · intro hexhausted
    have hfinished : search (b.task m examples signature) =
        ⟨(search (b.task m examples signature)).state, .stopped .maxSize⟩ := by
      rw [← ending_of_exhaustedBy hone hexhausted]
    refine ⟨_, hrun', fun sol hsol => ?_⟩
    cases hsearch : search (b'.task m examples signature) with
    | mk s' ending =>
      rw [hsearch] at hsol
      cases ending with
      | stopped reason => cases hsol
      | found e =>
        obtain rfl : ⟨e.term, e.size⟩ = sol := Option.some.inj hsol
        rw [htask] at hsearch
        exact search_beyond hcount hclock hone hsize hfinished hsearch

theorem run_conditional_four :
    run ((Table.ofBuiltins [.cond]).machine .standard) ⟨[1, 2], 4, 100, fun _ => false⟩
      [⟨[.bool true], .int 1⟩, ⟨[.bool false], .int 2⟩] =
        .ok ⟨none, ⟨4, 6, 6, 0, 0, some .maxSize⟩⟩ := by
  have hmachine : ((Table.ofBuiltins [.cond]).machine .standard).table =
      Table.ofBuiltins [.cond] := rfl
  have htable : (Table.ofBuiltins [.cond]).toList = [.ofBuiltin 0 .cond] := rfl
  have hterminals : Terminal.all (Table.ofBuiltins [.cond]) [.bool] [1, 2] =
      [⟨.var 0, .bool⟩, ⟨.lit (.int 1), .int⟩, ⟨.lit (.int 2), .int⟩, ⟨.lit (.bool true), .bool⟩,
        ⟨.lit (.bool false), .bool⟩, ⟨.lit (.list []), .list⟩] := rfl
  refine run_eq_ok.mpr ⟨⟨[.bool], .int⟩, rfl, by decide, by decide, ?_⟩
  -- the hash of a value does not reduce, so the search is run by rewriting
  simp [Bounds.task, search, Halted.outcome, firstLevel, levelsFrom, level, State.start,
    State.finishLevel, Stats.zero, hmachine, htable, hterminals, considerTerminal,
    Machine.eval, Machine.evalAt, Machine.evalWith, offer, count, clockStride, checkClock,
    Task.target, compose, compositions, Primitive.ofBuiltin, Primitive.arity, Builtin.signature,
    Builtin.cost, Signature.arity, bind, Except.bind, pure, Except.pure]

/-- With larger budgets the choice is found as before, and after four sizes its size is beyond them. -/
theorem run_outlasts_choice :
    let m := (Table.ofBuiltins [.cond]).machine .standard
    let examples : List Example := [⟨[.bool true], .int 1⟩, ⟨[.bool false], .int 2⟩]
    let found : Outcome :=
      ⟨some ⟨.apply 0 [.var 0, .lit (.int 1), .lit (.int 2)], 5⟩, ⟨4, 8, 7, 1, 0, none⟩⟩
    let larger : Bounds := ⟨[1, 2], 9, 5000, fun _ => false⟩
    run m ⟨[1, 2], 5, 100, fun _ => false⟩ examples = .ok found ∧ run m larger examples = .ok found ∧
    run m ⟨[1, 2], 4, 100, fun _ => false⟩ examples =
      .ok ⟨none, ⟨4, 6, 6, 0, 0, some .maxSize⟩⟩ ∧
    ∃ out', run m larger examples = .ok out' ∧ ∀ sol, out'.solution = some sol → 4 < sol.size := by
  intro m examples found larger
  have hints : larger.intConstants = [1, 2] := rfl
  have hsize : 5 ≤ larger.maxSize := by decide
  have hcount : 100 ≤ larger.maxCandidates := by decide
  have hclock : ∀ n, false = false → larger.clock n = false := fun _ _ => rfl
  refine ⟨run_conditional, ?_, run_conditional_four, ?_⟩
  · exact (run_outlasts hints hsize hcount hclock run_conditional).1 _ rfl
  · exact (run_outlasts hints (Nat.le_of_succ_le hsize) hcount hclock run_conditional_four).2 rfl

end Exemplar.Enumeration
