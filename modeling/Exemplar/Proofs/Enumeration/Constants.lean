import Exemplar.Proofs.Enumeration.Completeness
import Exemplar.Proofs.Enumeration.Kept

/-!
# Constants in an enumeration

A primitive without parameters is a constant. **What an enumeration finds are exactly the sizes of
solutions without constants of weight one** (`run_finds_iff`): a run that is not cut off returns a
solution of at most some size if and only if there is one that uses no such constant.

Nothing is applied on the level of the terminals, and on a later level there is no split of a positive
rest into no parts. So a constant of weight one, which is what a promoted program without inputs becomes,
is never tried (`run_overlooks`), while a heavier one is (`run_finds_iff_heavy`).
-/

namespace Exemplar

theorem Machine.Yields.values {m : Machine} {examples : List Example} {e : Term}
    {outputs : List Value} (h : m.Yields examples e outputs) :
    ∀ ex ∈ examples, ∃ v, m.eval e ex.inputs = .ok v :=
  ((List.forall₂_and_left _ _).mp (h.imp fun _ v hv => ⟨⟨v, hv⟩, hv⟩)).1

namespace Enumeration

/-! ## Building -/

section building

variable {m : Machine} {signature : Signature} {ints : List Int} {examples : List Example}

theorem Buildable.terminal {l : Terminal} (hl : l ∈ Terminal.all m.table signature.params ints)
    (hvalues : ∀ ex ∈ examples, ∃ v, m.eval l.term ex.inputs = .ok v) :
    Buildable m signature ints examples l.term := by
  have hleaf := Terminal.isLeaf_of_mem_all hl
  have hroot : ∀ s ∈ l.term.subterms, s.2 = l.term ∧ s.2.head? = none := by
    cases hterm : l.term with
    | apply => simp [hterm, Term.isLeaf] at hleaf
    | _ => simp [Term.subterms, Term.head?]
  refine ⟨fun s hs _ => ⟨l, hl, (hroot s hs).1.symm⟩, fun s hs => ?_, fun s hs id hid => ?_⟩
  · rw [(hroot s hs).1]
    exact hvalues
  · rw [(hroot s hs).2] at hid
    cases hid

theorem Buildable.apply {id : PrimId} {args : List Term}
    (hargs : ∀ a ∈ args, Buildable m signature ints examples a)
    (hvalues : ∀ ex ∈ examples, ∃ v, m.eval (.apply id args) ex.inputs = .ok v)
    (hweight : ∀ p ∈ m.table.get? id, p.arity = 0 → p.cost ≠ 1) :
    Buildable m signature ints examples (.apply id args) := by
  have hsubterm : ∀ s ∈ (Term.apply id args).subterms,
      s.2 = .apply id args ∨ ∃ a ∈ args, ∃ path, (path, s.2) ∈ a.subterms := by
    rintro ⟨path, s⟩ hs
    rcases Term.mem_subterms_apply.mp hs with ⟨-, rfl⟩ | ⟨i, a, rest, hget, -, hmem⟩
    · exact .inl rfl
    · exact .inr ⟨a, List.mem_of_getElem? hget, rest, hmem⟩
  refine ⟨fun s hs => ?_, fun s hs => ?_, fun s hs => ?_⟩
  all_goals rcases hsubterm s hs with hroot | ⟨a, ha, path, hmem⟩
  · intro hleaf
    simp [hroot, Term.isLeaf] at hleaf
  · exact (hargs a ha).leaves (path, s.2) hmem
  · rw [hroot]
    exact hvalues
  · exact (hargs a ha).values (path, s.2) hmem
  · intro id' hid'
    rw [hroot] at hid'
    obtain rfl : id = id' := Option.some.inj hid'
    exact hweight
  · exact (hargs a ha).weights (path, s.2) hmem

end building

variable {k : Task}

theorem inherited_buildable (ht : k.machine.table.Indexed) : Inherited k fun e =>
    Buildable k.machine k.signature k.intConstants k.examples e.term where
  terminal l hl e hsound hterm := by
    rw [hterm]
    exact .terminal hl (hterm ▸ hsound.yields.values)
  application p hp args hargs htwo e hsound hterm := by
    have htyped := hsound.typed
    rw [hterm] at htyped ⊢
    refine .apply (List.forall_mem_map.mpr hargs) (hterm ▸ hsound.yields.values) ?_
    intro q hq harity
    have hget := ht.get?_id hp
    obtain rfl : p = q := Option.some.inj (hget.symm.trans hq)
    obtain ⟨_, hget', -, hparams⟩ := Term.infer_apply.mp htyped
    obtain rfl := Option.some.inj (hget.symm.trans hget')
    -- an application is on the second level or a later one, so without arguments all of its size
    -- is the weight of the primitive
    have hnone : args = [] := by
      have hlength := hparams.length_eq.trans harity
      rw [List.length_map] at hlength
      exact List.length_eq_zero_iff.mp hlength
    rw [hnone, List.map_nil, List.sum_nil] at htwo
    omega

/-! ## What runs find -/

theorem Halted.Explored.finds {h : Halted} (hexplored : h.Explored k) (hk : k.Proper) {e : Term}
    (hbuild : Buildable k.machine k.signature k.intConstants k.examples e)
    (hty : e.infer k.machine.table k.signature.params = .ok k.signature.ret)
    (hsolves : ∀ ex ∈ k.examples, k.machine.eval e ex.inputs = .ok ex.output)
    (hbounded : e.size k.machine.table ≤ k.maxSize)
    (htime : h.ending ≠ .stopped .timeBudget) (hcount : h.ending ≠ .stopped .candidateLimit) :
    ∃ r, h.ending = .found r ∧ r.size ≤ e.size k.machine.table := by
  have hunreached : ∀ s : State, s.Settled k → s.levels.size < e.size k.machine.table :=
    fun s hs => hs.unreached hk hbuild hty hsolves
  obtain ⟨s, r | reason⟩ := h
  · obtain ⟨-, -, -, hsmallest⟩ := hexplored
    refine ⟨r, rfl, ?_⟩
    rcases hsmallest with hleast | ⟨s₀, hs₀, hpresent⟩
    · rw [hleast]
      exact hk.costed.one_le_size e
    · rw [hpresent]
      exact hunreached s₀ hs₀
  · cases reason with
    | timeBudget => exact absurd rfl htime
    | candidateLimit => exact absurd rfl hcount
    | maxSize =>
      obtain ⟨s₀, hs₀, hall⟩ := hexplored
      exact absurd (hunreached s₀ hs₀) (Nat.not_lt.mpr (hall ▸ hbounded))

theorem run_attainable {m : Machine} (ht : m.table.Indexed) (hcosts : m.table.Costed)
    (hternary : m.table.Ternary) {b : Bounds} {examples : List Example} {signature : Signature}
    (hsig : Problem.signature examples = .ok signature) {out : Outcome}
    (hrun : run m b examples = .ok out) {sol : Solution} (hsol : out.solution = some sol) :
    Attainable m signature b examples sol.term ∧ sol.size = sol.term.size m.table := by
  obtain ⟨signature', hsig', -, hmax, rfl⟩ := run_eq_ok.mp hrun
  obtain rfl : signature = signature' := Except.ok.inj (hsig.symm.trans hsig')
  have hexplored : (search (b.task m examples signature)).Explored (b.task m examples signature) :=
    search_explored ht hcosts hternary (Nat.one_le_iff_ne_zero.mpr hmax)
  have hbuild : (search (b.task m examples signature)).Finds fun e =>
      Buildable m signature b.intConstants examples e.term :=
    search_inherits (inherited_buildable ht) ht hcosts hternary
  revert hexplored hbuild hsol
  generalize search (b.task m examples signature) = halted
  obtain ⟨s, e | reason⟩ := halted
  · rintro hsol ⟨hsound, ⟨hty, houtputs⟩, hsize, -⟩ hbuild
    obtain rfl : ⟨e.term, e.size⟩ = sol := Option.some.inj hsol
    have hyields := hsound.yields
    rw [houtputs] at hyields
    refine ⟨⟨hbuild e rfl, hty ▸ hsound.typed, yields_target_iff.mp hyields, ?_⟩,
      hsound.sized.symm⟩
    exact hsound.sized.trans_le hsize
  · intro hsol
    cases hsol

/-- **A run that is not cut off finds what can be attained without constants of weight one**, and
nothing smaller. -/
theorem run_finds_iff {m : Machine} (ht : m.table.Indexed) (hcosts : m.table.Costed)
    (hwell : m.table.WellTyped) {b : Bounds} {examples : List Example} {signature : Signature}
    (hsig : Problem.signature examples = .ok signature) {out : Outcome}
    (hrun : run m b examples = .ok out) (htime : out.stats.exhaustedBy ≠ some .timeBudget)
    (hcount : out.stats.exhaustedBy ≠ some .candidateLimit) (n : Nat) :
    (∃ sol, out.solution = some sol ∧ sol.size ≤ n) ↔
      ∃ e, Attainable m signature b examples e ∧ e.size m.table ≤ n := by
  constructor
  · rintro ⟨sol, hsol, hn⟩
    obtain ⟨hattainable, hsize⟩ := run_attainable ht hcosts hwell.ternary hsig hrun hsol
    exact ⟨sol.term, hattainable, hsize ▸ hn⟩
  · rintro ⟨e, he, hn⟩
    obtain ⟨signature', hsig', -, hmax, rfl⟩ := run_eq_ok.mp hrun
    obtain rfl : signature = signature' := Except.ok.inj (hsig.symm.trans hsig')
    have hexplored : (search (b.task m examples signature)).Explored
        (b.task m examples signature) :=
      search_explored ht hcosts hwell.ternary (Nat.one_le_iff_ne_zero.mpr hmax)
    have hproper : (b.task m examples signature).Proper := ⟨ht, hcosts, hwell, hsig⟩
    obtain ⟨r, hfound, hsize⟩ := hexplored.finds hproper he.buildable he.typed he.solves he.bounded
      (fun h => htime (by simp [Halted.outcome, h]))
      (fun h => hcount (by simp [Halted.outcome, h]))
    refine ⟨⟨r.term, r.size⟩, ?_, Nat.le_trans hsize hn⟩
    simp [Halted.outcome, hfound]

/-! ## A constant of some weight -/

/-- The constant seven of a weight. -/
def sevenOf (cost : Nat) : Table := ⟨#[.ofBody 0 "seven" ⟨[], .int⟩ (.lit (.int 7)) cost]⟩

theorem run_sevenOf_two :
    run ((sevenOf 2).machine .standard) ⟨[], 3, 100, fun _ => false⟩ [⟨[], .int 7⟩] =
      .ok ⟨some ⟨.apply 0 [], 2⟩, ⟨1, 4, 4, 0, 0, none⟩⟩ := by
  have hmachine : ((sevenOf 2).machine .standard).table = sevenOf 2 := rfl
  have htable : (sevenOf 2).toList = [.ofBody 0 "seven" ⟨[], .int⟩ (.lit (.int 7)) 2] := rfl
  have hterminals : Terminal.all (sevenOf 2) [] [] =
      [⟨.lit (.bool true), .bool⟩, ⟨.lit (.bool false), .bool⟩, ⟨.lit (.list []), .list⟩] := rfl
  have hseven : ((sevenOf 2).machine .standard).apply 0 [] = .ok (.int 7) := rfl
  refine run_eq_ok.mpr ⟨⟨[], .int⟩, rfl, by decide, by decide, ?_⟩
  -- the hash of a value does not reduce, so the search is run by rewriting
  simp [Bounds.task, search, Halted.outcome, firstLevel, levelsFrom, level, State.start,
    State.finishLevel, Stats.zero, hmachine, htable, hterminals, hseven, considerTerminal,
    Machine.eval, Machine.evalAt, Machine.evalWith, offer, count, clockStride, Task.target, compose,
    composeSplit, compositions, forTuples, considerApplication, applyRows, Primitive.ofBody,
    Primitive.arity, Signature.arity, bind, Except.bind, pure, Except.pure, throw, throwThe,
    MonadExceptOf.throw]

theorem run_sevenOf_one :
    run ((sevenOf 1).machine .standard) ⟨[], 3, 100, fun _ => false⟩ [⟨[], .int 7⟩] =
      .ok ⟨none, ⟨3, 3, 3, 0, 0, some .maxSize⟩⟩ := by
  have hmachine : ((sevenOf 1).machine .standard).table = sevenOf 1 := rfl
  have htable : (sevenOf 1).toList = [.ofBody 0 "seven" ⟨[], .int⟩ (.lit (.int 7)) 1] := rfl
  have hterminals : Terminal.all (sevenOf 1) [] [] =
      [⟨.lit (.bool true), .bool⟩, ⟨.lit (.bool false), .bool⟩, ⟨.lit (.list []), .list⟩] := rfl
  refine run_eq_ok.mpr ⟨⟨[], .int⟩, rfl, by decide, by decide, ?_⟩
  simp [Bounds.task, search, Halted.outcome, firstLevel, levelsFrom, level, State.start,
    State.finishLevel, Stats.zero, hmachine, htable, hterminals, considerTerminal,
    Machine.eval, Machine.evalAt, Machine.evalWith, offer, count, clockStride, checkClock,
    Task.target, compose, compositions, Primitive.ofBody, Primitive.arity, Signature.arity, bind,
    Except.bind, pure, Except.pure]

/-- A constant of weight two is found on the second level. -/
theorem run_finds_iff_heavy :
    (∃ sol, some (Solution.mk (.apply 0 []) 2) = some sol ∧ sol.size ≤ 2) ↔
      ∃ e, Attainable ((sevenOf 2).machine .standard) ⟨[], .int⟩ ⟨[], 3, 100, fun _ => false⟩
        [⟨[], .int 7⟩] e ∧ e.size (sevenOf 2) ≤ 2 :=
  run_finds_iff (by decide) (by decide) (by decide) rfl run_sevenOf_two (by decide) (by decide) 2

/-- A constant of weight one solves the problem by itself, and the run ends without a solution. -/
theorem run_overlooks :
    let m := (sevenOf 1).machine .standard
    let e : Term := .apply 0 []
    m.table.Indexed ∧ m.table.Costed ∧ m.table.WellTyped ∧
      Problem.signature [⟨[], .int 7⟩] = .ok ⟨[], .int⟩ ∧
      (∀ s ∈ e.subterms, s.2.isLeaf = true → ∃ l ∈ Terminal.all m.table [] [], l.term = s.2) ∧
      (∀ s ∈ e.subterms, m.eval s.2 [] = .ok (.int 7)) ∧
      e.infer m.table [] = .ok .int ∧ e.size m.table = 1 ∧
      run m ⟨[], 3, 100, fun _ => false⟩ [⟨[], .int 7⟩] =
        .ok ⟨none, ⟨3, 3, 3, 0, 0, some .maxSize⟩⟩ :=
  ⟨by decide, by decide, by decide, rfl, by decide, by decide, by decide, rfl, run_sevenOf_one⟩

end Enumeration

end Exemplar
