import Exemplar.Proofs.Verification.Checks
import Exemplar.Proofs.Verification.Trace
import Mathlib.Data.Nat.Bitwise

/-!
# Branch coverage

**If path exploration passes, every branch of every conditional of the program is taken by the
evaluation on some example** (`branch_coverage`).

Proof. A natural forced run makes the decisions of the ordinary evaluation, and none of them is other
than its assignment says (`forced_natural`). Exploration passes only if every assignment to the sites
is followed naturally by some example (`explore_clean`); the assignments are all functions from sites
to branches, since every such function is the bits of a number (`exists_ofBits`). For a site and a
branch take the assignment that leads there: at each conditional above the site the branch that the
site lies in, at the site itself the branch (`Assignment.toward`). An evaluation that makes no other
decisions at the sites reaches the site (`reached_of_toward`), wherever it lies: a condition and the
arguments of other primitives are always evaluated, and a branch is if the conditional takes it.
-/

namespace Exemplar

/-! ## Sites -/

namespace Term

theorem mem_sites {t : Table} {e : Term} {path : Path} :
    path ∈ e.sites t ↔ ∃ s, (path, s) ∈ e.subterms ∧ s.isConditional t = true := by
  simp [sites]

theorem mem_sites_apply {t : Table} {id : PrimId} {args : List Term} {path : Path} :
    path ∈ (Term.apply id args).sites t ↔
      (path = [] ∧ t.conditional id = true) ∨
        ∃ i a rest, args[i]? = some a ∧ path = i :: rest ∧ rest ∈ a.sites t := by
  simp only [mem_sites, mem_subterms_apply]
  constructor
  · rintro ⟨s, ⟨rfl, rfl⟩ | ⟨i, a, rest, hget, rfl, hmem⟩, hcond⟩
    · exact .inl ⟨rfl, hcond⟩
    · exact .inr ⟨i, a, rest, hget, rfl, s, hmem, hcond⟩
  · rintro (⟨rfl, hcond⟩ | ⟨i, a, rest, hget, rfl, s, hmem, hcond⟩)
    · exact ⟨_, .inl ⟨rfl, rfl⟩, hcond⟩
    · exact ⟨s, .inr ⟨i, a, rest, hget, rfl, hmem⟩, hcond⟩

@[simp] theorem sites_lit (t : Table) (v : Value) : (Term.lit v).sites t = [] := rfl

@[simp] theorem sites_var (t : Table) (i : Nat) : (Term.var i).sites t = [] := rfl

end Term

/-! ## Natural runs -/

namespace Run

variable {α β : Type} {r : Run α} {next : α → Run β}

theorem andThen_natural (h : (r.andThen next).natural = true) :
    r.natural = true ∧ ∀ a, r.value = .ok a → (next a).natural = true := by
  rw [andThen] at h
  split at h
  · rename_i f hvalue
    exact ⟨h, fun a ha => by simp [hvalue] at ha⟩
  · rename_i a hvalue
    obtain ⟨hr, hnext⟩ := Bool.and_eq_true_iff.mp h
    exact ⟨hr, fun b hb => Except.ok.inj (hvalue.symm.trans hb) ▸ hnext⟩

theorem andThen_value {a : α} (h : r.value = .ok a) : (r.andThen next).value = (next a).value := by
  rw [andThen, h]

end Run

/-- No decision is other than an assignment says. -/
def Assignment.Agrees (a : Assignment) (decisions : List Decision) : Prop :=
  ∀ path b, (path, b) ∈ decisions → ∀ taken, a path = some taken → taken = b

theorem Assignment.decide_natural {a : Assignment} {p : Bool}
    (h : (a.decide (.bool p)).natural = true) :
    (a.decide (.bool p)).value = .ok p ∧ ∀ taken, a [] = some taken → taken = p := by
  cases hroot : a [] with
  | none => simp [decide, hroot, Value.toBool, Run.plain]
  | some taken => simpa [decide, hroot, Value.toBool] using h

namespace Machine

variable {m : Machine} {inputs : List Value}

theorem forcedArgs_natural {args : List Term} {vs : List Value}
    (hargs : List.Forall₂ (fun e v => m.eval e inputs = .ok v) args vs)
    (hforced : ∀ e ∈ args, ∀ (a : Assignment) v, m.eval e inputs = .ok v →
      (m.forced inputs a e).natural = true →
        (m.forced inputs a e).value = .ok v ∧ a.Agrees (m.traced inputs e).decisions)
    {a : Assignment} {i : Nat} (hnatural : (m.forcedArgs inputs a i args).natural = true) :
    (m.forcedArgs inputs a i args).value = .ok vs ∧
      ∀ j e, args[j]? = some e → (a.below (i + j)).Agrees (m.traced inputs e).decisions := by
  induction hargs generalizing i with
  | nil => exact ⟨rfl, by simp⟩
  | @cons e v args vs hv _ ih =>
    obtain ⟨hhead, hrest⟩ := List.forall_mem_cons.mp hforced
    rw [forcedArgs] at hnatural ⊢
    obtain ⟨hnatural, hnext⟩ := Run.andThen_natural hnatural
    obtain ⟨hvalue, hagrees⟩ := hhead _ v hv hnatural
    obtain ⟨hnatural', -⟩ := Run.andThen_natural (hnext v hvalue)
    obtain ⟨hvalues, hothers⟩ := ih hrest hnatural'
    refine ⟨?_, ?_⟩
    · rw [Run.andThen_value hvalue, Run.andThen_value hvalues]
      rfl
    · intro j e' hget
      cases j with
      | zero =>
        obtain rfl : e = e' := by simpa using hget
        exact hagrees
      | succ j =>
        rw [← Nat.add_assoc, Nat.add_right_comm]
        exact hothers j e' hget

/-- **A natural run has the value of the evaluation, and its assignment agrees with the decisions.** -/
theorem forced_natural (e : Term) : ∀ (a : Assignment) v, m.eval e inputs = .ok v →
    (m.forced inputs a e).natural = true →
      (m.forced inputs a e).value = .ok v ∧ a.Agrees (m.traced inputs e).decisions := by
  induction e using Term.inductionOn with
  | lit w => exact fun a v hv _ => ⟨hv, by simp [Assignment.Agrees, traced]⟩
  | var i => exact fun a v hv _ => ⟨hv, by simp [Assignment.Agrees, traced]⟩
  | apply id args ih =>
    intro a v hv hnatural
    rcases eval_apply_inversion hv with ⟨hid, c, x, y, p, rfl, hc, hbranch⟩ | ⟨hid, vs, hvs, happly⟩
    · rw [forced, if_pos hid] at hnatural ⊢
      obtain ⟨hcondition, hnext⟩ := Run.andThen_natural hnatural
      obtain ⟨hcondition, hdecide⟩ := Run.andThen_natural hcondition
      obtain ⟨hcvalue, hcagrees⟩ := ih c (by simp) _ _ hc hcondition
      obtain ⟨hpvalue, hpagrees⟩ := Assignment.decide_natural (hdecide _ hcvalue)
      have hchosen := (Run.andThen_value hcvalue).trans hpvalue
      have hbranch : ((if p then m.forced inputs (a.below 1) x
            else m.forced inputs (a.below 2) y).value = .ok v) ∧
          (a.below (if p then 1 else 2)).Agrees
            (m.traced inputs (if p then x else y)).decisions := by
        have hnatural := hnext p hchosen
        cases p with
        | true => exact ih x (by simp) _ _ hbranch hnatural
        | false => exact ih y (by simp) _ _ hbranch hnatural
      obtain ⟨hvalue, hagrees⟩ := hbranch
      refine ⟨(Run.andThen_value hchosen).trans hvalue, ?_⟩
      intro path b hmem taken htaken
      rcases (mem_decisions_conditional hid hc x y path b).mp hmem with
        ⟨rest, rfl, hrest⟩ | ⟨rfl, rfl⟩ | ⟨rest, rfl, hrest⟩
      · exact hcagrees rest b hrest taken htaken
      · exact hpagrees taken htaken
      · exact hagrees rest b hrest taken htaken
    · rw [forced.eq_def] at hnatural ⊢
      simp only [hid] at hnatural ⊢
      rw [if_neg Bool.false_ne_true] at hnatural ⊢
      obtain ⟨hnatural, -⟩ := Run.andThen_natural hnatural
      obtain ⟨hvalues, hagrees⟩ := forcedArgs_natural hvs ih hnatural
      refine ⟨(Run.andThen_value hvalues).trans happly, ?_⟩
      intro path b hmem taken htaken
      obtain ⟨i, e, rest, hget, rfl, hrest⟩ := (mem_decisions_strict hid hvs path b).mp hmem
      have hbelow := hagrees i e hget
      rw [Nat.zero_add] at hbelow
      exact hbelow rest b hrest taken htaken

end Machine

/-! ## Leading an evaluation to a site -/

/-- The branches that lead to a site and to a branch there: at a conditional above the site the one
that the site lies in, at the site the branch. -/
def Assignment.toward (branch : Bool) : (site path : Term.Path) → Bool
  | [], _ => branch
  | i :: _, [] => i == 1
  | _ :: site, _ :: path => toward branch site path

namespace Machine

variable {m : Machine} {inputs : List Value} {branch : Bool}

/-- An evaluation decides at all sites as it takes to reach a branch. -/
def Steered (m : Machine) (inputs : List Value) (branch : Bool) (e : Term) (site : Term.Path) :
    Prop :=
  ∀ path ∈ e.sites m.table, ∀ b, (path, b) ∈ (m.traced inputs e).decisions →
    b = Assignment.toward branch site path

theorem Steered.reaches_arg {id : PrimId} {args : List Term} {i : Nat} {rest : Term.Path}
    (h : Steered m inputs branch (.apply id args) (i :: rest)) {a : Term} (hget : args[i]? = some a)
    (hdecisions : ∀ path b, (path, b) ∈ (m.traced inputs a).decisions →
      (i :: path, b) ∈ (m.traced inputs (.apply id args)).decisions)
    (hreaches : Steered m inputs branch a rest → (rest, branch) ∈ (m.traced inputs a).decisions) :
    (i :: rest, branch) ∈ (m.traced inputs (.apply id args)).decisions := by
  have hsteered : Steered m inputs branch a rest := by
    intro path hpath b hb
    have hsite : i :: path ∈ (Term.apply id args).sites m.table :=
      Term.mem_sites_apply.mpr (.inr ⟨i, a, path, hget, rfl, hpath⟩)
    exact h (i :: path) hsite b (hdecisions path b hb)
  exact hdecisions rest branch (hreaches hsteered)

/-- **A steered evaluation takes the branch that it is steered to.** -/
theorem Steered.reaches (e : Term) : ∀ site v, m.eval e inputs = .ok v → site ∈ e.sites m.table →
    Steered m inputs branch e site → (site, branch) ∈ (m.traced inputs e).decisions := by
  induction e using Term.inductionOn with
  | lit w => simp
  | var i => simp
  | apply id args ih =>
    intro site v hv hsite hsteered
    rcases eval_apply_inversion hv with ⟨hid, c, x, y, p, rfl, hc, hbranch⟩ | ⟨hid, vs, hvs, -⟩
    · have hmem := mem_decisions_conditional hid hc x y
      have hroot : p = Assignment.toward branch site [] :=
        hsteered [] (Term.mem_sites_apply.mpr (.inl ⟨rfl, hid⟩)) p
          ((hmem [] p).mpr (.inr (.inl ⟨rfl, rfl⟩)))
      rcases Term.mem_sites_apply.mp hsite with ⟨rfl, -⟩ | ⟨i, a, rest, hget, rfl, hrest⟩
      · exact (hmem [] branch).mpr (.inr (.inl ⟨rfl, hroot.symm⟩))
      · -- the decision at the root is for the branch that the site lies in, if it lies in one
        rcases i with _ | _ | _ | i
        · obtain rfl : c = a := by simpa using hget
          refine hsteered.reaches_arg hget (fun path b h => ?_) (ih c (by simp) rest _ hc hrest)
          exact (hmem (0 :: path) b).mpr (.inl ⟨path, rfl, h⟩)
        · obtain rfl : x = a := by simpa using hget
          obtain rfl : p = true := hroot
          refine hsteered.reaches_arg hget (fun path b h => ?_) (ih x (by simp) rest _ hbranch hrest)
          exact (hmem (1 :: path) b).mpr (.inr (.inr ⟨path, rfl, h⟩))
        · obtain rfl : y = a := by simpa using hget
          obtain rfl : p = false := hroot
          refine hsteered.reaches_arg hget (fun path b h => ?_) (ih y (by simp) rest _ hbranch hrest)
          exact (hmem (2 :: path) b).mpr (.inr (.inr ⟨path, rfl, h⟩))
        · simp at hget
    · rcases Term.mem_sites_apply.mp hsite with ⟨-, hcond⟩ | ⟨i, a, rest, hget, rfl, hrest⟩
      · simp [hid] at hcond
      · obtain ⟨hi, rfl⟩ := List.getElem?_eq_some_iff.mp hget
        have ha := hvs.get hi (hvs.length_eq ▸ hi)
        refine hsteered.reaches_arg hget (fun path b h => ?_)
          (ih _ (List.getElem_mem hi) rest _ ha hrest)
        exact (mem_decisions_strict hid hvs (i :: path) b).mpr ⟨i, _, path, hget, rfl, h⟩

end Machine

/-! ## Exploration -/

theorem Assignment.exists_ofBits (sites : List Term.Path) (f : Term.Path → Bool) :
    ∃ bits < 2 ^ sites.length, ∀ path ∈ sites,
      Assignment.ofBits sites bits path = some (f path) := by
  refine ⟨Nat.ofBits fun i : Fin sites.length => f sites[i], Nat.ofBits_lt_two_pow _, ?_⟩
  intro path hpath
  obtain ⟨i, hi⟩ := Option.isSome_iff_exists.mp (List.isSome_idxOf?.mpr hpath)
  obtain ⟨hlt, hget, -⟩ := List.idxOf?_eq_some_iff.mp hi
  rw [ofBits, hi, Option.map_some, Nat.testBit_ofBits_lt _ i hlt]
  exact congrArg (some ∘ f) hget

namespace PathReport

theorem totalOf_eq {sites : Nat} (h : totalOf sites < maxTotal) : totalOf sites = 2 ^ sites := by
  rw [totalOf] at h ⊢
  split at h
  · rename_i hsites
    rw [if_pos hsites]
    exact Nat.one_shiftLeft sites
  · simp at h

theorem totalOf_le_iff {sites budget : Nat} (hbudget : budget < maxTotal) :
    totalOf sites ≤ budget ↔ 2 ^ sites ≤ budget := by
  constructor
  · intro h
    rwa [← totalOf_eq (Nat.lt_of_le_of_lt h hbudget)]
  · intro h
    have hsites : sites < 64 := by
      rw [← Nat.pow_lt_pow_iff_right (Nat.le_refl 2)]
      exact Nat.lt_of_le_of_lt h (Nat.lt_trans hbudget (by decide))
    rw [totalOf, if_pos hsites, Nat.one_shiftLeft]
    exact h

theorem explore_clean_iff {m : Machine} {budget : Nat} {ret : Ty} {examples : List Example} {e : Term}
    (hbudget : budget < maxTotal) :
    (explore m budget ret examples e).clean = true ↔
      (explore m budget ret examples e).illTyped = 0 ∧
        (explore m budget ret examples e).violating = 0 ∧
          2 ^ (e.sites m.table).length ≤ budget ∧
            ∀ bits < 2 ^ (e.sites m.table).length, ∃ ex ∈ examples,
              (m.forced ex.inputs (.ofBits (e.sites m.table) bits) e).natural = true := by
  have hall : ¬min (totalOf (e.sites m.table).length) budget < totalOf (e.sites m.table).length ↔
      2 ^ (e.sites m.table).length ≤ budget := by
    rw [← totalOf_le_iff hbudget]
    omega
  have huntested (hpow : 2 ^ (e.sites m.table).length ≤ budget) :
      (explore m budget ret examples e).untested = 0 ↔
        ∀ bits < 2 ^ (e.sites m.table).length, ∃ ex ∈ examples,
          (m.forced ex.inputs (.ofBits (e.sites m.table) bits) e).natural = true := by
    have htotal := (totalOf_le_iff hbudget).mpr hpow
    have hexplored : min (totalOf (e.sites m.table).length) budget =
        2 ^ (e.sites m.table).length := by
      rw [Nat.min_eq_left htotal, totalOf_eq (Nat.lt_of_le_of_lt htotal hbudget)]
    simp [explore, hexplored, follow, List.countP_eq_zero]
  simp only [clean, truncated, Bool.and_eq_true, beq_iff_eq, Bool.not_eq_true', decide_eq_false_iff_not]
  constructor
  · rintro ⟨⟨⟨hnone, htyped⟩, hmatching⟩, hexplored⟩
    have hpow := hall.mp hexplored
    exact ⟨htyped, hmatching, hpow, (huntested hpow).mp hnone⟩
  · rintro ⟨htyped, hmatching, hpow, hnatural⟩
    exact ⟨⟨⟨(huntested hpow).mpr hnatural, htyped⟩, hmatching⟩, hall.mpr hpow⟩

theorem explore_clean {m : Machine} {budget : Nat} {ret : Ty} {examples : List Example} {e : Term}
    (hclean : (explore m budget ret examples e).clean = true) (hbudget : budget < maxTotal)
    {bits : Nat} (hbits : bits < 2 ^ (e.sites m.table).length) :
    ∃ ex ∈ examples,
      (m.forced ex.inputs (.ofBits (e.sites m.table) bits) e).natural = true := by
  obtain ⟨-, -, -, hnatural⟩ := (explore_clean_iff hbudget).mp hclean
  exact hnatural bits hbits

end PathReport

/-! ## Verification -/

namespace Verification

variable {t : Table} {s : Settings} {signature : Signature} {examples : List Example} {e : Term}

/-- **Branch coverage.** If the exploration of paths passes within a budget below the greatest
number, then every branch of every conditional of the program is taken by its evaluation on some
example. -/
theorem branch_coverage (hbudget : s.pathBudget < PathReport.maxTotal)
    (hpassed : (verify t s signature examples e).outcomeOf? .paths = some .passed) :
    ∀ site ∈ e.sites t, ∀ branch, ∃ ex ∈ examples,
      (site, branch) ∈ ((t.machine s.limits).traced ex.inputs e).decisions := by
  intro site hsite branch
  rw [outcomeOf_paths] at hpassed
  split at hpassed
  · rename_i hmandatory
    obtain ⟨hreplay, -⟩ := Bool.and_eq_true_iff.mp hmandatory
    have hclean := paths_passed (m := t.machine s.limits) hsite (Option.some.inj hpassed)
    obtain ⟨bits, hbits, hassigned⟩ :=
      Assignment.exists_ofBits (e.sites t) (Assignment.toward branch site)
    obtain ⟨ex, hex, hnatural⟩ := PathReport.explore_clean hclean
      (Nat.max_lt.mpr ⟨hbudget, by decide⟩) hbits
    have heval := replay_passed hreplay ex hex
    obtain ⟨-, hagrees⟩ := Machine.forced_natural e _ _ heval hnatural
    refine ⟨ex, hex, Machine.Steered.reaches e site _ heval hsite ?_⟩
    exact fun path hpath b hmem => (hagrees path b hmem _ (hassigned path hpath)).symm
  · simp at hpassed

/-- Three examples cover the branches of a conditional in a branch of another one. -/
theorem branch_coverage_nested :
    let e : Term := .apply 12 [.apply 7 [.var 0, .lit (.int 0)], .apply 5 [.var 0],
      .apply 12 [.apply 6 [.var 0, .lit (.int 0)], .lit (.int 7), .var 0]]
    let examples : List Example :=
      [⟨[.int (-3)], .int 3⟩, ⟨[.int 0], .int 7⟩, ⟨[.int 4], .int 4⟩]
    e.sites Table.builtins = [[], [2]] ∧
    (verify Table.builtins .standard ⟨[.int], .int⟩ examples e).outcomeOf? .paths = some .passed ∧
    ∀ site ∈ e.sites Table.builtins, ∀ branch, ∃ ex ∈ examples, (site, branch) ∈
      ((Table.builtins.machine Settings.standard.limits).traced ex.inputs e).decisions := by
  intro e examples
  have hpassed : (verify Table.builtins .standard ⟨[.int], .int⟩ examples e).outcomeOf? .paths =
      some .passed := rfl
  exact ⟨rfl, hpassed, branch_coverage (by decide) hpassed⟩

end Verification

end Exemplar
