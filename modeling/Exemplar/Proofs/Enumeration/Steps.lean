import Exemplar.Proofs.Enumeration.Composition
import Exemplar.Proofs.Enumeration.Invariant

/-!
# Steps of a search

Every step of a level advances the search (`Advances`). An application is computed on the outputs
kept of its arguments, and these are the outputs of the term that it stands for (`applyRows_eq_ok`);
so a candidate that is offered is sound, and one that is discarded has no outputs. Offering a
candidate represents its term: its outputs are kept now, or were kept before (`offer_advances`).
Composing a primitive represents all its applications to programs of finished levels that belong on
the present one (`compose_advances`).
-/

namespace Exemplar.Enumeration

/-! ## Rows -/

section rows

variable {m : Machine} {id : PrimId} {p : Primitive} {terms : List Term}
  {columns : List (List Value)}

theorem columns_cons {ex : Example} {exs : List Example}
    (h : List.Forall₂ (m.Yields (ex :: exs)) terms columns) :
    List.Forall₂ (fun e v => m.eval e ex.inputs = .ok v) terms (columns.filterMap List.head?) ∧
      List.Forall₂ (m.Yields exs) terms (columns.map List.tail) := by
  induction h with
  | nil => exact ⟨.nil, .nil⟩
  | cons hcolumn _ ih =>
    obtain ⟨hvs, hrest⟩ := ih
    cases hcolumn with
    | cons hv htail => exact ⟨.cons hv hvs, .cons htail hrest⟩

/-- **Applying a primitive to cached outputs yields the outputs of the application.** -/
theorem applyRows_eq_ok (ht : m.table.Ternary) (hget : m.table.get? id = some p)
    (harity : terms.length = p.arity) {examples : List Example}
    (hcolumns : List.Forall₂ (m.Yields examples) terms columns) {outputs : List Value} :
    applyRows m id examples.length columns = .ok outputs ↔
      m.Yields examples (.apply id terms) outputs := by
  induction examples generalizing columns outputs with
  | nil => cases outputs <;> simp [applyRows, Machine.Yields]
  | cons ex exs ih =>
    obtain ⟨hvs, hrest⟩ := columns_cons hcolumns
    rw [List.length_cons, applyRows, bind_eq_ok, Machine.Yields, List.forall₂_cons_left_iff]
    constructor
    · rintro ⟨v, hv, h⟩
      obtain ⟨rest, htail, h⟩ := bind_eq_ok.mp h
      exact ⟨v, rest, (Machine.eval_apply_eq_ok ht hget harity hvs).mpr hv, (ih hrest).mp htail,
        (pure_eq_ok.mp h).symm⟩
    · rintro ⟨v, rest, hv, htail, rfl⟩
      exact ⟨v, (Machine.eval_apply_eq_ok ht hget harity hvs).mp hv,
        bind_eq_ok.mpr ⟨rest, (ih hrest).mpr htail, rfl⟩⟩

theorem yields_apply_congr (ht : m.table.Ternary) (hget : m.table.get? id = some p)
    {as bs : List Term} (harity : as.length = p.arity) {examples : List Example}
    (has : List.Forall₂ (m.Yields examples) as columns)
    (hbs : List.Forall₂ (m.Yields examples) bs columns) {outputs : List Value} :
    m.Yields examples (.apply id as) outputs ↔ m.Yields examples (.apply id bs) outputs := by
  have harity' : bs.length = p.arity := by
    rw [hbs.length_eq, ← has.length_eq, harity]
  rw [← applyRows_eq_ok ht hget harity has, ← applyRows_eq_ok ht hget harity' hbs]

end rows

variable {k : Task} {s : State}

theorem columns_of_sound {args : List Entry} (hargs : ∀ a ∈ args, a.Sound k) :
    List.Forall₂ (k.machine.Yields k.examples) (args.map Entry.term) (args.map Entry.outputs) := by
  rw [List.forall₂_map_left_iff, List.forall₂_map_right_iff, List.forall₂_same]
  exact fun a ha => (hargs a ha).yields

/-! ## Candidates -/

theorem checkClock_advances (hs : s.Valid k) : Advances k s (fun _ => False) (checkClock k s) := by
  rw [checkClock]
  split
  · simp [Advances, Post, Halted.Ended]
  · exact ⟨hs.counted _ _, .counted s _ _, fun _ he => he.elim⟩

theorem count_advances (hs : s.Valid k) : Advances k s (fun _ => False) (count k s) := by
  rw [count]
  split
  · simp [Advances, Post, Halted.Ended]
  · dsimp only
    split
    · exact (checkClock_advances (hs.counted _ _)).of_extends (.counted s _ _)
    · exact ⟨hs.counted _ _, .counted s _ _, fun _ he => he.elim⟩

theorem offer_advances (hs : s.Valid k) {e : Entry} (he : e.Sound k) (hsize : e.size = s.present) :
    Advances k s (· = e.term) (offer k e s) := by
  refine ((count_advances hs).bind (U := (· = e.term)) fun s' hs' hext => ?_).mono
    fun _ => .inr
  have hpresent : e.size = s'.present := hsize.trans hext.present_eq.symm
  split
  · rename_i hseen
    obtain ⟨r, hr, houtputs⟩ := hs'.seen _ hseen
    refine ⟨hs'.counted _ _, .counted s' _ _, ?_⟩
    rintro _ rfl outputs hyields
    exact ⟨r, hr, houtputs.trans (he.yields.unique hyields), (hs'.of_kept hr).2⟩
  · split
    · rename_i hsolves
      exact ⟨he, hsolves, hpresent⟩
    · rename_i hnot
      refine ⟨hs'.push he hpresent hnot _, ⟨rfl, fun _ hmem => Array.mem_push_of_mem _ hmem⟩, ?_⟩
      rintro _ rfl outputs hyields
      exact ⟨e, State.mem_kept.mpr (.inr Array.mem_push_self), he.yields.unique hyields,
        Nat.le_of_eq hpresent⟩

theorem discard_advances (hs : s.Valid k) :
    Advances k s (fun e => ∀ outputs, ¬ k.machine.Yields k.examples e outputs) (discard k s) := by
  refine ((count_advances hs).bind
    (U := fun e => ∀ outputs, ¬ k.machine.Yields k.examples e outputs) fun s' hs' _ => ?_).mono
    fun _ => .inr
  exact ⟨hs'.counted _ _, .counted s' _ _,
    fun e hnone outputs hyields => absurd hyields (hnone outputs)⟩

theorem considerTerminal_advances (ht : k.machine.table.Indexed) (hs : s.Valid k)
    (hpresent : s.present = 1) {l : Terminal}
    (hl : l ∈ Terminal.all k.machine.table k.signature.params k.intConstants) :
    Advances k s (· = l.term) (considerTerminal k s l) := by
  rw [considerTerminal]
  split
  · rename_i outputs houtputs
    exact offer_advances hs ⟨Terminal.infer_of_mem_all ht hl,
      Term.size_of_isLeaf (Terminal.isLeaf_of_mem_all hl) _, mapM_eq_ok.mp houtputs⟩ hpresent.symm
  · rename_i f hfault
    refine (discard_advances hs).mono ?_
    rintro _ rfl outputs hyields
    simp [mapM_eq_ok.mpr hyields] at hfault

theorem considerApplication_advances (ht : k.machine.table.Ternary) (hs : s.Valid k) {p : Primitive}
    (hget : k.machine.table.get? p.id = some p) {args : List Entry} (hargs : ∀ a ∈ args, a.Sound k)
    (htys : args.map Entry.ty = p.signature.params) {size : Nat}
    (hsize : p.cost + (args.map Entry.size).sum = size) (hpresent : size = s.present) :
    Advances k s (· = .apply p.id (args.map Entry.term)) (considerApplication k size p args s) := by
  have harity : (args.map Entry.term).length = p.arity := by
    rw [Primitive.arity, Signature.arity, ← htys, List.length_map, List.length_map]
  have hcolumns := columns_of_sound hargs
  rw [considerApplication]
  split
  · rename_i outputs houtputs
    refine offer_advances hs ⟨?_, ?_, (applyRows_eq_ok ht hget harity hcolumns).mp houtputs⟩ hpresent
    · refine Term.infer_apply.mpr ⟨p, hget, rfl, ?_⟩
      rw [← htys, List.forall₂_map_left_iff, List.forall₂_map_right_iff, List.forall₂_same]
      exact fun a ha => (hargs a ha).typed
    · rw [Term.size_apply, Table.cost_of_get? hget, ← hsize, List.map_map]
      congr 2
      exact List.map_congr_left fun a ha => (hargs a ha).sized
  · rename_i f hfault
    refine (discard_advances hs).mono ?_
    rintro _ rfl outputs hyields
    simp [(applyRows_eq_ok ht hget harity hcolumns).mpr hyields] at hfault

/-! ## Combinations -/

theorem forTuples_advances (hs : s.Valid k) (visit : List Entry → State → Step)
    (pools : List (List Entry)) (chosen : List Entry) {T : List Entry → Term → Prop}
    (hvisit : ∀ args, List.Forall₂ (· ∈ ·) args pools → ∀ s', s'.Valid k → s.Extends s' →
      Advances k s' (T (chosen.reverse ++ args)) (visit (chosen.reverse ++ args) s')) :
    Advances k s (fun e => ∃ args, List.Forall₂ (· ∈ ·) args pools ∧ T (chosen.reverse ++ args) e)
      (forTuples visit pools chosen s) := by
  induction pools generalizing chosen s with
  | nil =>
    have hlast := hvisit [] .nil s hs (.refl s)
    rw [List.append_nil] at hlast
    refine hlast.mono ?_
    rintro e ⟨args, hargs, he⟩
    obtain rfl := List.forall₂_nil_right_iff.mp hargs
    rwa [List.append_nil] at he
  | cons pool pools ih =>
    refine (Advances.foldlM hs _ _ fun a ha s' hs' hext => ih hs' (a :: chosen) ?_).mono ?_
    · intro args hargs s'' hs'' hext'
      rw [List.reverse_cons, List.append_assoc]
      exact hvisit (a :: args) (.cons ha hargs) s'' hs'' (hext.trans hext')
    · rintro e ⟨args', hargs', he⟩
      obtain ⟨a, args, ha, hargs, rfl⟩ := List.forall₂_cons_right_iff.mp hargs'
      refine ⟨a, ha, args, hargs, ?_⟩
      rwa [List.reverse_cons, List.append_assoc]

theorem mem_pool (hs : s.Leveled) {ty : Ty} {size : Nat} (hsize : 1 ≤ size) {e : Entry} :
    e ∈ pool s.levels ty size ↔ e ∈ s.finished ∧ e.ty = ty ∧ e.size = size := by
  rw [pool, List.mem_filter, decide_eq_true_eq]
  constructor
  · rintro ⟨hmem, hty⟩
    cases hlevel : s.levels[size - 1]? with
    | none => simp [hlevel] at hmem
    | some level =>
      rw [hlevel] at hmem
      have hsized := hs _ level hlevel e hmem
      exact ⟨State.mem_finished.mpr ⟨_, level, hlevel, hmem⟩, hty, by omega⟩
  · rintro ⟨hmem, hty, rfl⟩
    obtain ⟨-, level, hlevel, hmem⟩ := hs.level_of_finished hmem
    exact ⟨by rwa [hlevel], hty⟩

/-- The combinations of the pools of a split are the lists of finished programs whose types are those
of the parameters and whose sizes are the members of the split. -/
theorem mem_pools (hs : s.Leveled) {params : List Ty} {split : List Nat}
    (hlength : split.length = params.length) (hpos : ∀ n ∈ split, 1 ≤ n) (args : List Entry) :
    List.Forall₂ (· ∈ ·) args (List.zipWith (pool s.levels) params split) ↔
      (∀ a ∈ args, a ∈ s.finished) ∧ args.map Entry.ty = params ∧ args.map Entry.size = split := by
  induction params generalizing split args with
  | nil =>
    obtain rfl := List.length_eq_zero_iff.mp hlength
    cases args <;> simp
  | cons ty params ih =>
    cases split with
    | nil => simp at hlength
    | cons size split =>
      obtain ⟨hsize, hrest⟩ := List.forall_mem_cons.mp hpos
      cases args with
      | nil => simp
      | cons a args =>
        have htail := ih (Nat.succ.inj hlength) hrest args
        simp only [List.zipWith_cons_cons, List.forall₂_cons, mem_pool hs hsize, htail,
          List.forall_mem_cons, List.map_cons, List.cons.injEq]
        tauto

theorem pools_inhabited {args : List Entry} {pools : List (List Entry)}
    (h : List.Forall₂ (· ∈ ·) args pools) : pools.any List.isEmpty = false := by
  induction h with
  | nil => rfl
  | cons ha _ ih =>
    rw [List.any_cons, ih, Bool.or_false]
    simpa using List.ne_nil_of_mem ha

/-! ## Compositions -/

/-- An application of a primitive to finished programs of the types of its parameters and of some
sizes. -/
def State.Applied (s : State) (p : Primitive) (sizes : List Nat) (e : Term) : Prop :=
  ∃ args : List Entry, (∀ a ∈ args, a ∈ s.finished) ∧ args.map Entry.ty = p.signature.params ∧
    args.map Entry.size = sizes ∧ e = .apply p.id (args.map Entry.term)

theorem State.Valid.split_of_applied (hs : s.Valid k) {p : Primitive} {sizes : List Nat} {e : Term}
    (h : s.Applied p sizes e) : sizes ∈ compositions p.arity sizes.sum := by
  obtain ⟨args, hfinished, htys, rfl, -⟩ := h
  refine mem_compositions.mpr ⟨?_, ?_, rfl⟩
  · rw [Primitive.arity, Signature.arity, ← htys, List.length_map, List.length_map]
  · intro n hn
    obtain ⟨a, ha, rfl⟩ := List.mem_map.mp hn
    exact (hs.level_of_finished (hfinished a ha)).2.1

theorem composeSplit_advances (ht : k.machine.table.Ternary) (hs : s.Valid k) {p : Primitive}
    (hget : k.machine.table.get? p.id = some p) {split : List Nat}
    (hsplit : split ∈ compositions p.arity split.sum) (size : Nat)
    (hsum : p.cost + split.sum = size) (hpresent : size = s.present) :
    Advances k s (s.Applied p split) (composeSplit k s.levels size p s split) := by
  obtain ⟨hlength, hpos, -⟩ := mem_compositions.mp hsplit
  have hpools := mem_pools hs.leveled hlength hpos
  rw [composeSplit]
  split
  · rename_i hempty
    refine ⟨hs, .refl s, ?_⟩
    rintro e ⟨args, hfinished, htys, hsizes, -⟩
    have hargs := (hpools args).mpr ⟨hfinished, htys, hsizes⟩
    simp [pools_inhabited hargs] at hempty
  · have hvisits := forTuples_advances hs (considerApplication k size p)
      (List.zipWith (pool s.levels) p.signature.params split) []
      (T := fun args e => e = .apply p.id (args.map Entry.term)) ?_
    · refine hvisits.mono ?_
      rintro e ⟨args, hfinished, htys, hsizes, he⟩
      exact ⟨args, (hpools args).mpr ⟨hfinished, htys, hsizes⟩, he⟩
    · intro args hargs s' hs' hext
      obtain ⟨hfinished, htys, hsizes⟩ := (hpools args).mp hargs
      refine considerApplication_advances ht hs' hget ?_ htys (by rwa [hsizes])
        (hpresent.trans hext.present_eq.symm)
      exact fun a ha => (hs.level_of_finished (hfinished a ha)).1

theorem composeSplit_advances_later (ht : k.machine.table.Ternary) {s' : State} (hext : s.Extends s') (hs' : s'.Valid k)
    {p : Primitive} (hget : k.machine.table.get? p.id = some p) {split : List Nat}
    (hsplit : split ∈ compositions p.arity split.sum) {size : Nat} (hsum : p.cost + split.sum = size)
    (hpresent : size = s.present) :
    Advances k s' (s.Applied p split) (composeSplit k s.levels size p s' split) := by
  have hstep := composeSplit_advances ht hs' hget hsplit size hsum
    (hpresent.trans hext.present_eq.symm)
  refine (hext.levels ▸ hstep).mono fun e he => ?_
  rwa [State.Applied, hext.finished_eq]

/-- **Composing a primitive represents its applications that belong on the present level.** -/
theorem compose_advances (ht : k.machine.table.Ternary) (hs : s.Valid k) {p : Primitive}
    (hget : k.machine.table.get? p.id = some p) (hcost : 1 ≤ p.cost) {size : Nat}
    (hpresent : size = s.present) :
    Advances k s (fun e => ∃ sizes, p.cost + sizes.sum = size ∧ s.Applied p sizes e)
      (compose k s.levels size s p) := by
  rw [compose, Nat.max_eq_left hcost]
  split
  · refine ⟨hs, .refl s, ?_⟩
    rintro e ⟨sizes, htotal, -⟩
    omega
  · have hsplits := Advances.foldlM hs (composeSplit k s.levels size p)
      (compositions p.arity (size - p.cost)) (T := s.Applied p) ?_
    · refine hsplits.mono ?_
      rintro e ⟨sizes, htotal, he⟩
      have hsum : sizes.sum = size - p.cost := by omega
      exact ⟨sizes, hsum ▸ hs.split_of_applied he, he⟩
    · intro split hsplit s' hs' hext
      obtain ⟨-, -, hsum⟩ := mem_compositions.mp hsplit
      exact composeSplit_advances_later ht hext hs' hget (hsum.symm ▸ hsplit) (by omega) hpresent

theorem compose_advances_later (ht : k.machine.table.Ternary) {s' : State} (hext : s.Extends s') (hs' : s'.Valid k) {p : Primitive}
    (hget : k.machine.table.get? p.id = some p) (hcost : 1 ≤ p.cost) {size : Nat}
    (hpresent : size = s.present) :
    Advances k s' (fun e => ∃ sizes, p.cost + sizes.sum = size ∧ s.Applied p sizes e)
      (compose k s.levels size s' p) := by
  have hstep := compose_advances ht hs' hget hcost (hpresent.trans hext.present_eq.symm)
  rw [hext.levels] at hstep
  refine hstep.mono ?_
  rintro e ⟨sizes, hsum, happlied⟩
  refine ⟨sizes, hsum, ?_⟩
  rwa [State.Applied, hext.finished_eq]

end Exemplar.Enumeration
