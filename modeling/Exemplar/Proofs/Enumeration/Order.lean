import Exemplar.Proofs.Enumeration.Constants
import Exemplar.Proofs.Enumeration.Course

/-!
# Which solution an enumeration returns

**An enumeration returns the first of the smallest solutions** (`run_first`): no solution is smaller, none
of the same size has a root that stands earlier in the table, and of those with the same root none has
argument sizes that come earlier in lexicographic order. A solution of size one is the first terminal that
matches.

Only programs that were kept are applied, so the first solution need not be built itself. But when it
would be built, the application of its root to the representatives of its arguments is: these have the
same outputs, and if one of them were smaller than the argument, a smaller solution would have been found
(`Settled.exists_applied`). What precedes the program that ends a search was represented by then in a state
without solutions (`compose_found`).
-/

namespace Exemplar.Enumeration

variable {k : Task} {s : State}

/-! ## Order -/

theorem mem_of_pairwise {α : Type} {R : α → α → Prop} {before after : List α} {x y : α}
    (h : (before ++ x :: after).Pairwise R) (hasymm : ∀ a b, R a b → ¬ R b a)
    (hy : y ∈ before ++ x :: after) (hyx : R y x) : y ∈ before := by
  obtain ⟨-, htail, -⟩ := List.pairwise_append.mp h
  rcases List.mem_append.mp hy with hy | hy
  · exact hy
  · rcases List.mem_cons.mp hy with rfl | hy
    · exact absurd hyx (hasymm y y hyx)
    · exact absurd ((List.pairwise_cons.mp htail).1 y hy) (hasymm y x hyx)

theorem eq_of_forall₂_le {ms ns : List Nat} (h : List.Forall₂ (· ≤ ·) ms ns)
    (hsum : ns.sum ≤ ms.sum) : ms = ns := by
  induction h with
  | nil => rfl
  | cons hle hrest ih =>
    rename_i m n ms ns
    have hsums := hrest.sum_le_sum
    rw [List.sum_cons, List.sum_cons] at hsum
    rw [ih (by omega), Nat.le_antisymm hle (by omega)]

theorem exists_of_foldlM_eq_error {α : Type} {f : State → α → Step} {xs : List α} {h : Halted}
    (heq : xs.foldlM f s = .error h) :
    ∃ before x after s', xs = before ++ x :: after ∧ before.foldlM f s = .ok s' ∧
      f s' x = .error h := by
  induction xs generalizing s with
  | nil => cases heq
  | cons x xs ih =>
    cases hx : f s x with
    | error halted =>
      rw [List.foldlM_cons, hx] at heq
      obtain rfl : halted = h := Except.error.inj heq
      exact ⟨[], x, xs, s, rfl, rfl, hx⟩
    | ok s₁ =>
      rw [List.foldlM_cons, hx] at heq
      obtain ⟨before, y, after, s', rfl, hbefore, hy⟩ := ih heq
      refine ⟨x :: before, y, after, s', rfl, ?_, hy⟩
      rw [List.foldlM_cons, hx]
      exact hbefore

end Exemplar.Enumeration

namespace Exemplar

theorem Table.Indexed.sorted {t : Table} (ht : t.Indexed) :
    t.toList.Pairwise (fun p q => p.id < q.id) := by
  rw [List.pairwise_iff_getElem]
  intro i j hi hj hij
  have hentry : ∀ n (h : n < t.toList.length), (t.toList[n]).id = n := fun n h => ht n h
  rw [hentry, hentry]
  exact hij

namespace Enumeration

variable {k : Task} {s : State}

/-! ## What comes before a program that is found -/

theorem State.Valid.not_represents (hs : s.Valid k) (hk : k.Proper) {e e' : Term} {n : Nat}
    (hty : e.infer k.machine.table k.signature.params = .ok k.signature.ret)
    (hyields : k.machine.Yields k.examples e k.target)
    (hyields' : k.machine.Yields k.examples e' k.target) : ¬ s.Represents k e' n := by
  intro hrep
  obtain ⟨r, hr, houtputs, -⟩ := hrep _ hyields'
  have hret : r.ty = k.signature.ret := (hs.of_kept hr).1.ty_eq hk hty (houtputs ▸ hyields)
  exact hs.unsolved r hr ⟨hret, houtputs⟩

section found

variable {s₁ s' : State} {e : Entry}

theorem compose_found (hternary : k.machine.table.Ternary) (hs : s.Valid k) (hs₁ : s₁.Valid k) (hext : s.Extends s₁) {p : Primitive}
    (hget : k.machine.table.get? p.id = some p) (hcost : 1 ≤ p.cost)
    (hfound : compose k s.levels s.present s₁ p = .error ⟨s', .found e⟩) :
    ∃ sizes, p.cost + sizes.sum = s.present ∧ s.Applied p sizes e.term ∧
      ∀ sizes' e', s.Applied p sizes' e' → p.cost + sizes'.sum = s.present →
        List.Lex (· < ·) sizes' sizes →
        ∃ s₂ : State, s₂.Valid k ∧ s₂.Represents k e' s.present := by
  rw [compose, Nat.max_eq_left hcost] at hfound
  split at hfound
  · cases hfound
  · obtain ⟨before, split, after, s₂, hsplits, hbefore, hlast⟩ := exists_of_foldlM_eq_error hfound
    have hlisted : ∀ sizes ∈ before ++ split :: after,
        sizes ∈ compositions p.arity sizes.sum ∧ p.cost + sizes.sum = s.present := by
      intro sizes hsizes
      rw [← hsplits] at hsizes
      obtain ⟨-, -, hsum⟩ := mem_compositions.mp hsizes
      exact ⟨hsum.symm ▸ hsizes, by omega⟩
    -- the compositions before the one where the program is found were gone through in full
    have hearlier := Advances.foldlM hs₁ (composeSplit k s.levels s.present p) before
      (T := s.Applied p) fun sizes hsizes s₃ hs₃ hext₃ => by
        obtain ⟨hcomposition, hsum⟩ := hlisted sizes (List.mem_append_left _ hsizes)
        exact composeSplit_advances_later hternary (hext.trans hext₃) hs₃ hget hcomposition hsum rfl
    rw [hbefore] at hearlier
    obtain ⟨hvalid, -, hrep⟩ := hearlier
    obtain ⟨hcomposition, htotal⟩ := hlisted split (List.mem_append_right _ List.mem_cons_self)
    have hadds := composeSplit_adds hs hcomposition s.present s₂
    rw [hlast] at hadds
    refine ⟨split, htotal, hadds e rfl, fun sizes e' happlied hsum hlt => ⟨s₂, hvalid, ?_⟩⟩
    have hmem : sizes ∈ before ++ split :: after := by
      rw [← hsplits, show s.present - p.cost = sizes.sum by omega]
      exact hs.split_of_applied happlied
    have hsorted : (before ++ split :: after).Pairwise (List.Lex (· < ·)) :=
      hsplits ▸ compositions_sorted _ _
    have hfirst : sizes ∈ before :=
      mem_of_pairwise hsorted (fun _ _ => List.lex_asymm Nat.lt_asymm) hmem hlt
    rw [← hext.present_eq]
    exact hrep e' ⟨sizes, hfirst, happlied⟩

/-- **What comes before a program that ends a level was represented in a state without solutions**: the
applications of earlier primitives, and those of the same one to earlier argument sizes. -/
theorem level_found (ht : k.machine.table.Indexed) (hcosts : k.machine.table.Costed)
    (hternary : k.machine.table.Ternary) (hs : s.Valid k)
    (hfound : k.machine.table.toList.foldlM (compose k s.levels s.present) s =
      .error ⟨s', .found e⟩) :
    ∃ p ∈ k.machine.table.toList, ∃ sizes, s.Applied p sizes e.term ∧
      ∀ p' ∈ k.machine.table.toList, ∀ sizes' e', s.Applied p' sizes' e' →
        p'.cost + sizes'.sum = s.present →
          (p'.id < p.id ∨ p'.id = p.id ∧ List.Lex (· < ·) sizes' sizes) →
            ∃ s₂ : State, s₂.Valid k ∧ s₂.Represents k e' s.present := by
  obtain ⟨before, p, after, s₁, htable, hbefore, hlast⟩ := exists_of_foldlM_eq_error hfound
  have hmem : ∀ q ∈ before, q ∈ k.machine.table.toList := fun q hq =>
    htable ▸ List.mem_append_left _ hq
  have hp : p ∈ k.machine.table.toList := htable ▸ List.mem_append_right _ List.mem_cons_self
  have hearlier := Advances.foldlM hs (compose k s.levels s.present) before fun q hq s₂ hs₂ hext =>
    compose_advances_later hternary hext hs₂ (ht.get?_id (hmem q hq)) (hcosts q (hmem q hq)) rfl
  rw [hbefore] at hearlier
  obtain ⟨hvalid, hext, hrep⟩ := hearlier
  obtain ⟨sizes, -, happlied, hsizes⟩ :=
    compose_found hternary hs hvalid hext (ht.get?_id hp) (hcosts p hp) hlast
  refine ⟨p, hp, sizes, happlied, ?_⟩
  rintro p' hp' sizes' e' happlied' hsum (hlt | ⟨hid, hlt⟩)
  · have hfirst : p' ∈ before :=
      mem_of_pairwise (htable ▸ ht.sorted) (fun q q' => Nat.lt_asymm) (htable ▸ hp') hlt
    exact ⟨s₁, hvalid, hrep e' ⟨p', hfirst, sizes', hsum, happlied'⟩⟩
  · have hget := ht.get?_id hp'
    rw [hid, ht.get?_id hp] at hget
    obtain rfl : p = p' := Option.some.inj hget
    exact hsizes sizes' e' happlied' hsum hlt

end found

/-! ## Solutions of any size -/

/-- A buildable program of any size that has a type and reproduces the examples. -/
structure Eligible (m : Machine) (signature : Signature) (ints : List Int) (examples : List Example)
    (e : Term) : Prop where
  buildable : Buildable m signature ints examples e
  typed : ∃ ty, e.infer m.table signature.params = .ok ty
  solves : ∀ ex ∈ examples, m.eval e ex.inputs = .ok ex.output

theorem Eligible.infer_ret {m : Machine} {signature : Signature} {ints : List Int}
    {examples : List Example} {e : Term} (he : Eligible m signature ints examples e)
    (hwell : m.table.WellTyped) (hsig : Problem.signature examples = .ok signature) :
    e.infer m.table signature.params = .ok signature.ret := by
  obtain ⟨ty, hty⟩ := he.typed
  obtain ⟨hne, hfits⟩ := Problem.signature_eq_ok hsig
  obtain ⟨ex, hex⟩ := List.exists_mem_of_ne_nil _ hne
  obtain ⟨hinputs, houtput⟩ := hfits ex hex
  have hplain : List.Forall₂ (Value.HasTy m.table) ex.inputs signature.params :=
    hinputs.imp fun _ _ => Value.hasTy_of_plainTy?
  -- the output has the program's type, as evaluation keeps types, and the one of the problem
  have htyped := (Machine.eval_safe hwell hty hplain).of_eq_ok (he.solves ex hex)
  rw [hty, Value.hasTy_unique htyped (Value.hasTy_of_plainTy? houtput)]

/-- **On the level of the smallest solutions, each of them is matched by an application of its root to
programs of the sizes of its arguments.** A smaller program in place of an argument would make up a smaller
solution. -/
theorem State.Settled.exists_applied (hs : s.Settled k) (hk : k.Proper) {id : PrimId}
    {args : List Term}
    (hbuild : Buildable k.machine k.signature k.intConstants k.examples (.apply id args))
    (hty : (Term.apply id args).infer k.machine.table k.signature.params = .ok k.signature.ret)
    (hyields : k.machine.Yields k.examples (.apply id args) k.target)
    (hsize : (Term.apply id args).size k.machine.table = s.present) :
    ∃ p ∈ k.machine.table.toList, p.id = id ∧ ∃ e', k.machine.Yields k.examples e' k.target ∧
      p.cost + (args.map (Term.size k.machine.table)).sum = s.present ∧
      s.Applied p (args.map (Term.size k.machine.table)) e' := by
  obtain ⟨p, hget, -, hargs⟩ := Term.infer_apply.mp hty
  have hp := Table.mem_of_get? hget
  have htotal := Term.size_apply k.machine.table id args
  rw [Table.cost_of_get? hget, hsize] at htotal
  have hsmaller : ∀ a ∈ args, a.size k.machine.table ≤ s.levels.size := by
    intro a ha
    have hlt := hk.costed.size_arg_lt id ha
    rw [hsize] at hlt
    exact Nat.le_of_lt_succ hlt
  -- the representatives of the arguments make up a program with the same outputs
  obtain ⟨rs, htys, hrs, hcolumns, hsizes⟩ := exists_representatives hargs
    fun a ha ty hty => hs.representative hk a ty (hbuild.arg ha) hty (hsmaller a ha)
  have happlied : s.Applied p (rs.map Entry.size) (.apply p.id (rs.map Entry.term)) :=
    ⟨rs, hrs, htys, rfl, rfl⟩
  have hyields' : k.machine.Yields k.examples (.apply p.id (rs.map Entry.term)) k.target := by
    rw [hk.indexed.id_eq hget]
    exact (yields_apply_congr hk.typed.ternary hget hargs.length_eq hcolumns
      (columns_of_sound fun r hr => (hs.valid.level_of_finished (hrs r hr)).1)).mp hyields
  have hsame : rs.map Entry.size = args.map (Term.size k.machine.table) := by
    -- were one of them smaller, that program would be a solution of an earlier level
    refine eq_of_forall₂_le hsizes (Nat.not_lt.mp fun hless => ?_)
    have htwo := hs.two_le_applied hk hbuild hget htys hrs
    have hreached : p.cost + (rs.map Entry.size).sum ≤ s.levels.size := by
      rw [State.present] at htotal
      omega
    exact hs.valid.not_represents hk hty hyields hyields'
      (hs.applications p hp _ _ happlied htwo hreached)
  exact ⟨p, hp, hk.indexed.id_eq hget, _, hyields', htotal.symm, hsame ▸ happlied⟩

theorem State.Settled.found_first (hs : s.Settled k) (hk : k.Proper) {s' : State} {e : Entry}
    (hfound : k.machine.table.toList.foldlM (compose k s.levels s.present) s =
      .error ⟨s', .found e⟩) :
    ∃ id args, e.term = .apply id args ∧
      ∀ e', Buildable k.machine k.signature k.intConstants k.examples e' →
        e'.infer k.machine.table k.signature.params = .ok k.signature.ret →
        k.machine.Yields k.examples e' k.target → e'.size k.machine.table = s.present →
        ∃ id' args', e' = .apply id' args' ∧ id ≤ id' ∧ (id' = id →
          ¬ List.Lex (· < ·) (args'.map (Term.size k.machine.table))
            (args.map (Term.size k.machine.table))) := by
  obtain ⟨p, hp, _, ⟨args, hfinished, -, rfl, hterm⟩, hearlier⟩ :=
    level_found hk.indexed hk.costed hk.typed.ternary hs.valid hfound
  refine ⟨p.id, args.map Entry.term, hterm, ?_⟩
  have hsized : (args.map Entry.term).map (Term.size k.machine.table) = args.map Entry.size := by
    rw [List.map_map]
    exact List.map_congr_left fun a ha => (hs.valid.level_of_finished (hfinished a ha)).1.sized
  rw [hsized]
  intro e' hbuild hty hyields hsize
  have hleaf : e'.isLeaf = false := by
    rw [← Bool.not_eq_true]
    intro hleaf
    have hone := Term.size_of_isLeaf hleaf k.machine.table
    have hreached := hs.reached
    rw [State.present] at hsize
    omega
  cases e' with
  | lit v => cases hleaf
  | var i => cases hleaf
  | apply id' args' =>
    obtain ⟨p', hp', rfl, e₁, hyields₁, hsum, happlied⟩ :=
      hs.exists_applied hk hbuild hty hyields hsize
    have hfirst : ¬ (p'.id < p.id ∨ p'.id = p.id ∧
        List.Lex (· < ·) (args'.map (Term.size k.machine.table)) (args.map Entry.size)) := by
      intro hbefore
      obtain ⟨s₂, hvalid, hrep⟩ := hearlier p' hp' _ e₁ happlied hsum hbefore
      exact hvalid.not_represents hk hty hyields hyields₁ hrep
    refine ⟨p'.id, args', rfl, ?_, fun hid => ?_⟩
    · exact Nat.not_lt.mp fun hlt => hfirst (.inl hlt)
    · exact fun hlt => hfirst (.inr ⟨hid, hlt⟩)

/-! ## Terminals -/

/-- A terminal that solves a problem by itself. -/
def Matches (m : Machine) (signature : Signature) (examples : List Example) (l : Terminal) : Prop :=
  l.ty = signature.ret ∧ ∀ ex ∈ examples, m.eval l.term ex.inputs = .ok ex.output

instance (m : Machine) (signature : Signature) (examples : List Example) (l : Terminal) :
    Decidable (Matches m signature examples l) :=
  inferInstanceAs (Decidable (_ ∧ _))

theorem terminal_found (hk : k.Proper) {s' : State} {e : Entry}
    (hfound : (Terminal.all k.machine.table k.signature.params k.intConstants).foldlM
      (considerTerminal k) .start = .error ⟨s', .found e⟩) :
    ∃ l, (Terminal.all k.machine.table k.signature.params k.intConstants).find?
      (fun l => Matches k.machine k.signature k.examples l) = some l ∧ e.term = l.term := by
  obtain ⟨before, l, after, s₁, hall, hbefore, hlast⟩ := exists_of_foldlM_eq_error hfound
  have hmem : ∀ l' ∈ before ++ l :: after,
      l' ∈ Terminal.all k.machine.table k.signature.params k.intConstants := fun l' hl' => hall ▸ hl'
  have hearlier := Advances.foldlM (start_valid k) (considerTerminal k) before
    (T := fun l e => e = l.term) fun l' hl' s₂ hs₂ hext =>
      considerTerminal_advances hk.indexed hs₂ hext.present_eq
        (hmem l' (List.mem_append_left _ hl'))
  rw [hbefore] at hearlier
  obtain ⟨hvalid, hext, hrep⟩ := hearlier
  have hl := hmem l (List.mem_append_right _ List.mem_cons_self)
  have hended := considerTerminal_advances hk.indexed hvalid hext.present_eq hl
  have hadds := considerTerminal_adds (k := k) l s₁
  rw [hlast] at hended hadds
  obtain ⟨hsound, ⟨hret, houtputs⟩, -⟩ := hended
  have hterm : e.term = l.term := hadds e rfl
  have hyields := hsound.yields
  have htyped := hsound.typed
  rw [hterm, houtputs] at hyields
  rw [hterm, Terminal.infer_of_mem_all hk.indexed hl] at htyped
  refine ⟨l, List.find?_eq_some_iff_append.mpr ⟨?_, before, after, hall, ?_⟩, hterm⟩
  · exact decide_eq_true ⟨(Except.ok.inj htyped).trans hret, yields_target_iff.mp hyields⟩
  · -- an earlier terminal that matches would be represented in a state without solutions
    intro l' hl'
    rw [Bool.not_eq_true', decide_eq_false_iff_not]
    rintro ⟨hret', hsolves⟩
    have hyields' := yields_target_iff.mpr hsolves
    have hty := Terminal.infer_of_mem_all hk.indexed (hmem l' (List.mem_append_left _ hl'))
    exact hvalid.not_represents hk (hret' ▸ hty) hyields' hyields' (hrep _ ⟨l', hl', rfl⟩)

/-! ## Runs -/

/-- A solution that comes first: it is of the least size; if that is one, it is the first terminal that
matches, and otherwise its root stands first among the roots of all solutions of this size, and the sizes of
its arguments are lexicographically least among those with this root. -/
structure Solution.First (m : Machine) (signature : Signature) (ints : List Int)
    (examples : List Example) (sol : Solution) : Prop where
  eligible : Eligible m signature ints examples sol.term
  sized : sol.size = sol.term.size m.table
  least : ∀ e, Eligible m signature ints examples e → sol.size ≤ e.size m.table
  terminal : sol.size = 1 → ∃ l, (Terminal.all m.table signature.params ints).find?
    (fun l => Matches m signature examples l) = some l ∧ sol.term = l.term
  root : sol.size ≠ 1 → ∃ id args, sol.term = .apply id args ∧
    ∀ e, Eligible m signature ints examples e → e.size m.table = sol.size →
      ∃ id' args', e = .apply id' args' ∧ id ≤ id' ∧
        (id' = id →
          ¬ List.Lex (· < ·) (args'.map (Term.size m.table)) (args.map (Term.size m.table)))

theorem search_found_cases (hk : k.Proper) (hmax : 1 ≤ k.maxSize) {s' : State} {e : Entry}
    (hsearch : search k = ⟨s', .found e⟩) :
    (e.size = 1 ∧ (Terminal.all k.machine.table k.signature.params k.intConstants).foldlM
      (considerTerminal k) .start = .error ⟨s', .found e⟩) ∨
    ∃ s : State, s.Settled k ∧ e.size = s.present ∧
      k.machine.table.toList.foldlM (compose k s.levels s.present) s = .error ⟨s', .found e⟩ := by
  obtain ⟨done, -, hsize, s, hs, hbuild⟩ :=
    exists_of_through_eq_found ((search_eq_found hmax).mp hsearch)
  cases done with
  | zero =>
    obtain rfl := Except.ok.inj hs
    exact .inl ⟨hsize, hbuild⟩
  | succ done =>
    obtain ⟨hsettled, hlevels⟩ := through_settled hk.indexed hk.costed hk.typed.ternary hs
    have hpresent : s.present = done + 2 := congrArg (· + 1) hlevels
    exact .inr ⟨s, hsettled, hsize.trans hpresent.symm, hpresent ▸ hbuild⟩

/-- **An enumeration returns the first of the smallest solutions**, if builtin operations declare their own
signatures (`run_not_first`). -/
theorem run_first {m : Machine} (ht : m.table.Indexed) (hcosts : m.table.Costed)
    (hwell : m.table.WellTyped) {b : Bounds} {examples : List Example} {signature : Signature}
    (hsig : Problem.signature examples = .ok signature) {out : Outcome}
    (hrun : run m b examples = .ok out) {sol : Solution} (hsol : out.solution = some sol) :
    sol.First m signature b.intConstants examples := by
  obtain ⟨hattained, hsized⟩ := run_attainable ht hcosts hwell.ternary hsig hrun hsol
  obtain ⟨signature', hsig', -, hmax, rfl⟩ := run_eq_ok.mp hrun
  obtain rfl : signature = signature' := Except.ok.inj (hsig.symm.trans hsig')
  have hk : (b.task m examples signature).Proper := ⟨ht, hcosts, hwell, hsig⟩
  have heligible : Eligible m signature b.intConstants examples sol.term :=
    ⟨hattained.buildable, ⟨_, hattained.typed⟩, hattained.solves⟩
  cases hsearch : search (b.task m examples signature) with
  | mk s' ending =>
    rw [hsearch] at hsol
    cases ending with
    | stopped reason => cases hsol
    | found e =>
      obtain rfl : ⟨e.term, e.size⟩ = sol := Option.some.inj hsol
      rcases search_found_cases hk (Nat.one_le_iff_ne_zero.mpr hmax) hsearch with
        ⟨hone, hfound⟩ | ⟨s, hs, hpresent, hfound⟩
      · exact ⟨heligible, hsized, fun e' _ => hone.trans_le (hcosts.one_le_size e'),
          fun _ => terminal_found hk hfound, fun hne => absurd hone hne⟩
      · have hreached := hs.reached
        refine ⟨heligible, hsized, fun e' he' => ?_, fun hone => ?_, fun _ => ?_⟩
        · exact hpresent.trans_le
            (hs.unreached hk he'.buildable (he'.infer_ret hwell hsig) he'.solves)
        · have hleaf : e.size = 1 := hone
          rw [hpresent, State.present] at hleaf
          omega
        · obtain ⟨id, args, hterm, hfirst⟩ := hs.found_first hk hfound
          exact ⟨id, args, hterm, fun e' he' hsame => hfirst e' he'.buildable
            (he'.infer_ret hwell hsig) (yields_target_iff.mpr he'.solves) (hsame.trans hpresent)⟩

theorem run_doubling :
    run ((Table.ofBuiltins [.add, .mul]).machine .standard) ⟨[2], 5, 100, fun _ => false⟩
      [⟨[.int 1], .int 2⟩, ⟨[.int 3], .int 6⟩] =
        .ok ⟨some ⟨.apply 0 [.var 0, .var 0], 3⟩, ⟨2, 6, 6, 0, 0, none⟩⟩ := by
  have hmachine : ((Table.ofBuiltins [.add, .mul]).machine .standard).table =
      Table.ofBuiltins [.add, .mul] := rfl
  have htable : (Table.ofBuiltins [.add, .mul]).toList =
      [.ofBuiltin 0 .add, .ofBuiltin 1 .mul] := rfl
  have hterminals : Terminal.all (Table.ofBuiltins [.add, .mul]) [.int] [2] =
      [⟨.var 0, .int⟩, ⟨.lit (.int 2), .int⟩, ⟨.lit (.bool true), .bool⟩,
        ⟨.lit (.bool false), .bool⟩, ⟨.lit (.list []), .list⟩] := rfl
  have hone : ((Table.ofBuiltins [.add, .mul]).machine .standard).apply 0 [.int 1, .int 1] =
      .ok (.int 2) := rfl
  have hthree : ((Table.ofBuiltins [.add, .mul]).machine .standard).apply 0 [.int 3, .int 3] =
      .ok (.int 6) := rfl
  refine run_eq_ok.mpr ⟨⟨[.int], .int⟩, rfl, by decide, by decide, ?_⟩
  -- the hash of a value does not reduce, so the search is run by rewriting
  simp [Bounds.task, search, Halted.outcome, firstLevel, levelsFrom, level, State.start,
    State.finishLevel, Stats.zero, hmachine, htable, hterminals, hone, hthree, considerTerminal,
    Machine.eval, Machine.evalAt, Machine.evalWith, offer, count, clockStride, checkClock,
    Task.target, compose, composeSplit, compositions, List.range, List.range.loop, pool, forTuples,
    considerApplication, applyRows, Primitive.ofBuiltin, Primitive.arity, Builtin.signature,
    Builtin.cost, Signature.arity, bind, Except.bind, pure, Except.pure, throw, throwThe,
    MonadExceptOf.throw]

/-- The sum comes before the product, since addition stands before multiplication. -/
theorem run_first_doubling :
    let m := (Table.ofBuiltins [.add, .mul]).machine .standard
    let examples : List Example := [⟨[.int 1], .int 2⟩, ⟨[.int 3], .int 6⟩]
    Eligible m ⟨[.int], .int⟩ [2] examples (.apply 1 [.var 0, .lit (.int 2)]) ∧
      (Solution.mk (.apply 0 [.var 0, .var 0]) 3).First m ⟨[.int], .int⟩ [2] examples := by
  intro m examples
  refine ⟨⟨by decide +kernel, ⟨.int, by decide⟩, by decide⟩, ?_⟩
  exact run_first (by decide) (by decide) (by decide) rfl run_doubling rfl

/-- Two operations that take the rest of a list, the first of which declares that it returns an integer, and
the length of a rest as one step that weighs four. -/
def misdeclaredTail : Table :=
  ⟨#[⟨0, "tail", ⟨[.list], .int⟩, .builtin .tail, 1⟩, .ofBuiltin 1 .tail, .ofBuiltin 2 .length,
    .ofBody 3 "shorter" ⟨[.list], .int⟩ (.apply 2 [.apply 1 [.var 0]]) 4]⟩

theorem run_misdeclaredTail :
    run (misdeclaredTail.machine .standard) ⟨[], 5, 100, fun _ => false⟩ [⟨[.list [7, 8]], .int 1⟩] =
      .ok ⟨some ⟨.apply 3 [.var 0], 5⟩, ⟨4, 11, 8, 1, 2, none⟩⟩ := by
  have hmachine : (misdeclaredTail.machine .standard).table = misdeclaredTail := rfl
  have htable : misdeclaredTail.toList =
      [⟨0, "tail", ⟨[.list], .int⟩, .builtin .tail, 1⟩, .ofBuiltin 1 .tail, .ofBuiltin 2 .length,
        .ofBody 3 "shorter" ⟨[.list], .int⟩ (.apply 2 [.apply 1 [.var 0]]) 4] := rfl
  have hterminals : Terminal.all misdeclaredTail [.list] [] =
      [⟨.var 0, .list⟩, ⟨.lit (.bool true), .bool⟩, ⟨.lit (.bool false), .bool⟩,
        ⟨.lit (.list []), .list⟩] := rfl
  have htail : ∀ id, id = 0 ∨ id = 1 → ∀ x xs, (misdeclaredTail.machine .standard).apply id
      [.list (x :: xs)] = .ok (.list xs) := by
    rintro _ (rfl | rfl) x xs <;> rfl
  have hempty : ∀ id, id = 0 ∨ id = 1 → (misdeclaredTail.machine .standard).apply id [.list []] =
      .error .emptyList := by
    rintro _ (rfl | rfl) <;> rfl
  have hlength : ∀ xs, (misdeclaredTail.machine .standard).apply 2 [.list xs] =
      .ok (.int xs.length) := fun _ => rfl
  have hshorter : (misdeclaredTail.machine .standard).apply 3 [.list [7, 8]] = .ok (.int 1) := rfl
  refine run_eq_ok.mpr ⟨⟨[.list], .int⟩, rfl, by decide, by decide, ?_⟩
  -- the hash of a value does not reduce, so the search is run by rewriting
  simp [Bounds.task, search, Halted.outcome, firstLevel, levelsFrom, level, State.start,
    State.finishLevel, Stats.zero, hmachine, htable, hterminals, htail, hempty, hlength, hshorter,
    considerTerminal, Machine.eval, Machine.evalAt, Machine.evalWith, offer, discard, count,
    clockStride, checkClock, Task.target, compose, composeSplit, compositions, pool, forTuples,
    considerApplication, applyRows, Primitive.ofBuiltin, Primitive.ofBody, Primitive.arity,
    Builtin.signature, Builtin.cost, Signature.arity, bind, Except.bind, pure, Except.pure, throw,
    throwThe, MonadExceptOf.throw]

/-- The length of the rest has size three. But the rest of the list was kept as an integer, and dropped as
a list, so that only the larger solution is built. -/
theorem run_not_first :
    let m := misdeclaredTail.machine .standard
    let examples : List Example := [⟨[.list [7, 8]], .int 1⟩]
    let e : Term := .apply 2 [.apply 1 [.var 0]]
    m.table.Indexed ∧ m.table.Costed ∧
      (∀ p ∈ m.table.toList, ∀ body ∈ p.body?,
        body.infer m.table p.signature.params = .ok p.signature.ret) ∧
      Problem.signature examples = .ok ⟨[.list], .int⟩ ∧
      run m ⟨[], 5, 100, fun _ => false⟩ examples =
        .ok ⟨some ⟨.apply 3 [.var 0], 5⟩, ⟨4, 11, 8, 1, 2, none⟩⟩ ∧
      Eligible m ⟨[.list], .int⟩ [] examples e ∧ e.size m.table = 3 ∧
      ¬ (Solution.mk (.apply 3 [.var 0]) 5).First m ⟨[.list], .int⟩ [] examples := by
  intro m examples e
  have he : Eligible m ⟨[.list], .int⟩ [] examples e :=
    ⟨by decide +kernel, ⟨.int, by decide⟩, by decide⟩
  have hsize : e.size m.table = 3 := by decide
  refine ⟨by decide, by decide, by decide, rfl, run_misdeclaredTail, he, hsize, fun h => ?_⟩
  have hleast : 5 ≤ e.size m.table := h.least e he
  omega

end Enumeration

end Exemplar
