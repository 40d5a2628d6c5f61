import Exemplar.Proofs.Catalog.History
import Exemplar.Proofs.Enumeration.Constants
import Exemplar.Proofs.Enumeration.Soundness

/-!
# Enumeration over a catalog that grows

**Whatever is offered to a catalog, a problem does not get harder**: if an enumeration over the catalog
finds a program, then an enumeration over the grown catalog whose bound admits the size of that program
finds one that is no larger, unless it is cut off (`run_after_offers`).

The two searches share little: there are more terminals, candidates come in another order, and other
programs are kept for those with equal outputs. But the program that the first one returned was attainable
(`run_attainable`), and it stays attainable, because its leaves are still terminals (`Terminal.all_subset`)
and because it has its type, its size and its values over the larger table too (`Attainable.extends`). So
the second search cannot end without a program of at most its size (`Halted.Explored.finds`).
-/

namespace Exemplar

section larger

variable {t t' : Table} (h : t.Extends t') (ht : t.Indexed)
include h ht

/-! ## Terminals -/

theorem Table.Extends.mem_toList {p : Primitive} (hp : p ∈ t.toList) : p ∈ t'.toList :=
  Table.mem_of_get? (h p.id p (ht.get?_id hp))

theorem Table.Extends.functionParams_subset : t.functionParams ⊆ t'.functionParams := by
  intro ty hty
  obtain ⟨p, hp, hparam⟩ := List.mem_flatMap.mp hty
  exact List.mem_flatMap.mpr ⟨p, h.mem_toList ht hp, hparam⟩

theorem Terminal.all_subset (inputs : List Ty) (ints : List Int) :
    Terminal.all t inputs ints ⊆ Terminal.all t' inputs ints := by
  have hfunctions : functions t ⊆ functions t' := by
    intro l hl
    obtain ⟨p, hp, rfl⟩ := List.mem_map.mp hl
    obtain ⟨hp, hkind⟩ := List.mem_filter.mp hp
    rw [Bool.and_eq_true, List.contains_iff_mem] at hkind
    obtain ⟨hplain, hparam⟩ := hkind
    refine List.mem_map.mpr ⟨p, List.mem_filter.mpr ⟨h.mem_toList ht hp, ?_⟩, rfl⟩
    rw [Bool.and_eq_true, List.contains_iff_mem]
    exact ⟨hplain, h.functionParams_subset ht hparam⟩
  rw [all, all]
  exact List.append_subset.mpr
    ⟨List.subset_append_left _ _, fun l hl => List.mem_append_right _ (hfunctions hl)⟩

/-! ## Attainable programs -/

namespace Enumeration

variable {limits : Limits} {signature : Signature} {examples : List Example}

theorem Attainable.extends (hsealed : t.Sealed) {b b' : Bounds}
    (hints : b'.intConstants = b.intConstants)
    (hsig : Problem.signature examples = .ok signature) {e : Term}
    (he : Attainable (t.machine limits) signature b examples e) (hmax : e.size t ≤ b'.maxSize) :
    Attainable (t'.machine limits) signature b' examples e := by
  obtain ⟨⟨hleaves, hvalues, hweights⟩, htyped, hsolves, -⟩ := he
  have hscope : ∀ id ∈ e.primitives, id < t.size := Term.lt_size_of_infer htyped
  have hsubterm : ∀ s ∈ e.subterms, ∀ id ∈ s.2.primitives, id < t.size :=
    fun s hs id hid => hscope id (Term.mem_primitives_of_mem_subterms hs hid)
  have heval : ∀ ex ∈ examples, ∀ s ∈ e.subterms,
      (t'.machine limits).eval s.2 ex.inputs = (t.machine limits).eval s.2 ex.inputs := by
    intro ex hex s hs
    obtain ⟨hplain, -⟩ := (Problem.signature_eq_ok hsig).2 ex hex
    have hinputs : Value.AllWithin (· < t.size) ex.inputs :=
      ((List.forall₂_and_left _ _).mp (hplain.imp fun _ _ hv =>
        ⟨Value.within_of_hasTy (Value.hasTy_of_plainTy? hv), hv⟩)).1
    exact h.evalAt_eq hsealed _ hinputs (hsubterm s hs)
  refine ⟨⟨fun s hs hleaf => ?_, fun s hs ex hex => ?_, fun s hs id hid p hp => ?_⟩, ?_, ?_, ?_⟩
  · obtain ⟨l, hl, hterm⟩ := hleaves s hs hleaf
    rw [hints]
    exact ⟨l, Terminal.all_subset h ht _ _ hl, hterm⟩
  · obtain ⟨v, hv⟩ := hvalues s hs ex hex
    exact ⟨v, (heval ex hex s hs).trans hv⟩
  · have hhead : id ∈ s.2.primitives := by
      cases hterm : s.2 with
      | apply j args =>
        rw [hterm] at hid
        obtain rfl : j = id := Option.some.inj hid
        exact List.mem_cons_self
      | _ =>
        rw [hterm] at hid
        cases hid
    have hget : t'.get? id = t.get? id := h.get?_eq (hsubterm s hs id hhead)
    exact hweights s hs id hid p (hget ▸ hp)
  · exact Term.infer_extends h htyped
  · intro ex hex
    exact (heval ex hex _ e.root_mem_subterms).trans (hsolves ex hex)
  · exact (h.size_eq hscope).trans_le hmax

end Enumeration

end larger

/-! ## Runs -/

namespace Enumeration

variable {c : Catalog}

/-- **Learning does not make a problem harder.** -/
theorem run_after_offers (hc : c.Grown) (os : List Catalog.Offer) (limits : Limits) {b b' : Bounds}
    (hints : b'.intConstants = b.intConstants) {examples : List Example} {out : Outcome}
    (hrun : run (c.table.machine limits) b examples = .ok out) {sol : Solution}
    (hsol : out.solution = some sol) (hmax : sol.size ≤ b'.maxSize) :
    ∃ out', run ((c.offerAll os).table.machine limits) b' examples = .ok out' ∧
      (out'.stats.exhaustedBy = some .timeBudget ∨
        out'.stats.exhaustedBy = some .candidateLimit ∨
        ∃ sol', out'.solution = some sol' ∧ sol'.size ≤ sol.size) := by
  have hproper := hc.proper
  obtain ⟨signature, hsig, hne, -, -⟩ := run_eq_ok.mp hrun
  obtain ⟨hattained, hsize⟩ := run_attainable hproper.indexed hc.costed hproper.wellTyped.ternary hsig hrun hsol
  have hextends : c.table.Extends (c.offerAll os).table := (c.grows_offerAll os).extends
  have he : Attainable ((c.offerAll os).table.machine limits) signature b' examples sol.term :=
    hattained.extends hextends hproper.indexed hproper.wellTyped.sealed hints hsig (hsize ▸ hmax)
  have hgrown := hc.offerAll os
  have hproper' := hgrown.proper
  have hone : 1 ≤ b'.maxSize := (hgrown.costed.one_le_size _).trans he.bounded
  have hne' : (c.offerAll os).table.size ≠ 0 :=
    Nat.ne_of_gt ((Nat.pos_of_ne_zero hne).trans_le hextends.size_le)
  refine ⟨_, run_eq_ok.mpr ⟨signature, hsig, hne', Nat.one_le_iff_ne_zero.mp hone, rfl⟩, ?_⟩
  have hk : (b'.task ((c.offerAll os).table.machine limits) examples signature).Proper :=
    ⟨hproper'.indexed, hgrown.costed, hproper'.wellTyped, hsig⟩
  have hexplored := search_explored hk.indexed hk.costed hk.typed.ternary hone
  generalize search (b'.task ((c.offerAll os).table.machine limits) examples signature) = halted
    at hexplored
  by_cases htime : halted.ending = .stopped .timeBudget
  · exact .inl (by rw [Halted.outcome, htime])
  · by_cases hcount : halted.ending = .stopped .candidateLimit
    · exact .inr (.inl (by rw [Halted.outcome, hcount]))
    · obtain ⟨r, hfound, hle⟩ :=
        hexplored.finds hk he.buildable he.typed he.solves he.bounded htime hcount
      have hsame : sol.term.size (c.offerAll os).table = sol.size :=
        (hextends.size_eq (Term.lt_size_of_infer hattained.typed)).trans hsize.symm
      exact .inr (.inr ⟨⟨r.term, r.size⟩, by rw [Halted.outcome, hfound], hle.trans_eq hsame⟩)

/-- A choice between two constants is found with size five. It is learned, and looked for again. -/
theorem run_after_offers_choice :
    let c := Catalog.ofBuiltins [.cond] 64 .standard
    let choice : Term := .apply 0 [.var 0, .lit (.int 1), .lit (.int 2)]
    let c' := c.offerAll [⟨"choice", ⟨[.bool], .int⟩, choice, 1⟩]
    let examples : List Example := [⟨[.bool true], .int 1⟩, ⟨[.bool false], .int 2⟩]
    let b : Bounds := ⟨[1, 2], 5, 100, fun _ => false⟩
    let b' : Bounds := ⟨[1, 2], 6, 5000, fun _ => false⟩
    c.Grown ∧ c'.names = ["if", "choice"] ∧ b'.intConstants = b.intConstants ∧
      run (c.table.machine .standard) b examples =
        .ok ⟨some ⟨choice, 5⟩, ⟨4, 8, 7, 1, 0, none⟩⟩ ∧
      ∃ out', run (c'.table.machine .standard) b' examples = .ok out' ∧
        (out'.stats.exhaustedBy = some .timeBudget ∨
          out'.stats.exhaustedBy = some .candidateLimit ∨
          ∃ sol', out'.solution = some sol' ∧ sol'.size ≤ 5) := by
  intro c choice c' examples b b'
  have hc : c.Grown := Catalog.grown_ofBuiltins _ _ _
  have hnames : c'.names = ["if", "choice"] := by decide +kernel
  have hints : b'.intConstants = b.intConstants := rfl
  have hrun : run (c.table.machine .standard) b examples =
      .ok ⟨some ⟨choice, 5⟩, ⟨4, 8, 7, 1, 0, none⟩⟩ := run_conditional
  have hmax : 5 ≤ b'.maxSize := by decide
  exact ⟨hc, hnames, hints, hrun, run_after_offers hc _ .standard hints hrun rfl hmax⟩

end Enumeration

end Exemplar
