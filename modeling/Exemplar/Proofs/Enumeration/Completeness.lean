import Exemplar.Proofs.Enumeration.Levels
import Exemplar.Proofs.TypeSoundness

/-!
# Completeness of enumeration

**If some program within the bound solves the problem, an enumeration that is not cut off returns a
solution that is no larger** (`run_complete`), although of programs with equal outputs only the first
is kept, whatever its type.

Proof. In a settled state every buildable program of a size that was reached has a representative: a
program kept, no larger, of the same type and with the same outputs (`Settled.representative`), by
induction on the program. Of an application the arguments have representatives; the application of
the primitive to these has the same outputs, since these depend on the outputs of the arguments alone
(`yields_apply_congr`), and a settled state represents it. Type soundness gives the representative
its type: the outputs on one example determine it (`Entry.Sound.ty_eq`). So a solution would have a
representative that solves the problem too, and a search that goes on has kept none.
-/

namespace Exemplar.Enumeration

/-! ## Buildable programs -/

/-- A program that an enumeration can build: its leaves are terminals, its subterms have values on
all examples, and it applies no primitive without parameters that weighs one. Such a primitive would
stand on the level of the terminals, where nothing is applied. -/
structure Buildable (m : Machine) (signature : Signature) (ints : List Int)
    (examples : List Example) (e : Term) : Prop where
  leaves : ∀ s ∈ e.subterms, s.2.isLeaf = true →
    ∃ l ∈ Terminal.all m.table signature.params ints, l.term = s.2
  values : ∀ s ∈ e.subterms, ∀ ex ∈ examples, ∃ v, m.eval s.2 ex.inputs = .ok v
  weights : ∀ s ∈ e.subterms, ∀ id ∈ s.2.head?, ∀ p ∈ m.table.get? id, p.arity = 0 → p.cost ≠ 1

/-- A buildable program within the bounds that solves the problem. -/
structure Attainable (m : Machine) (signature : Signature) (b : Bounds) (examples : List Example)
    (e : Term) : Prop where
  buildable : Buildable m signature b.intConstants examples e
  typed : e.infer m.table signature.params = .ok signature.ret
  solves : ∀ ex ∈ examples, m.eval e ex.inputs = .ok ex.output
  bounded : e.size m.table ≤ b.maxSize

section decidable

variable {m : Machine} {signature : Signature} {ints : List Int} {b : Bounds}
  {examples : List Example} {e : Term}

instance : Decidable (Buildable m signature ints examples e) :=
  decidable_of_iff (_ ∧ _ ∧ _) ⟨fun ⟨hleaves, hvalues, hweights⟩ => ⟨hleaves, hvalues, hweights⟩,
    fun h => ⟨h.leaves, h.values, h.weights⟩⟩

instance : Decidable (Attainable m signature b examples e) :=
  decidable_of_iff (_ ∧ _ ∧ _ ∧ _)
    ⟨fun ⟨hbuild, hty, hsolves, hsize⟩ => ⟨hbuild, hty, hsolves, hsize⟩,
      fun h => ⟨h.buildable, h.typed, h.solves, h.bounded⟩⟩

end decidable

theorem Buildable.arg {m : Machine} {signature : Signature} {ints : List Int}
    {examples : List Example} {id : PrimId} {args : List Term}
    (h : Buildable m signature ints examples (.apply id args)) {a : Term} (ha : a ∈ args) :
    Buildable m signature ints examples a := by
  refine ⟨fun s hs => ?_, fun s hs => ?_, fun s hs => ?_⟩
  all_goals obtain ⟨path, hmem⟩ := Term.mem_subterms_of_arg id ha hs
  · exact h.leaves (path, s.2) hmem
  · exact h.values (path, s.2) hmem
  · exact h.weights (path, s.2) hmem

/-! ## Representatives -/

/-- What completeness asks of a search: a table whose primitives carry their positions, weigh at least
one and return what they declare, and examples that share the signature. -/
structure Task.Proper (k : Task) : Prop where
  indexed : k.machine.table.Indexed
  costed : k.machine.table.Costed
  typed : k.machine.table.WellTyped
  signed : Problem.signature k.examples = .ok k.signature

variable {k : Task} {s : State}

/-- The program that is kept for another one: no larger, of the same type and with the same
outputs. -/
def State.Stands (k : Task) (s : State) (e : Term) (ty : Ty) (r : Entry) : Prop :=
  r ∈ s.finished ∧ r.ty = ty ∧ k.machine.Yields k.examples e r.outputs ∧
    r.size ≤ e.size k.machine.table

theorem Entry.Sound.ty_eq (hk : k.Proper) {r : Entry} (hr : r.Sound k) {e : Term} {ty : Ty}
    (hty : e.infer k.machine.table k.signature.params = .ok ty)
    (hyields : k.machine.Yields k.examples e r.outputs) : r.ty = ty := by
  obtain ⟨hne, hfits⟩ := Problem.signature_eq_ok hk.signed
  obtain ⟨ex, exs, hexamples⟩ := List.exists_cons_of_ne_nil hne
  obtain ⟨hplain, -⟩ := hfits ex (hexamples ▸ List.mem_cons_self)
  have hinputs : List.Forall₂ (Value.HasTy k.machine.table) ex.inputs k.signature.params :=
    hplain.imp fun _ _ => Value.hasTy_of_plainTy?
  have hyields' := hr.yields
  rw [Machine.Yields, hexamples, List.forall₂_cons_left_iff] at hyields hyields'
  obtain ⟨v, _, hv, -, houtputs⟩ := hyields
  obtain ⟨v', _, hv', -, houtputs'⟩ := hyields'
  obtain rfl : v = v' := (List.cons.inj (houtputs.symm.trans houtputs')).1
  exact Value.hasTy_unique ((Machine.eval_safe hk.typed hr.typed hinputs).of_eq_ok hv')
    ((Machine.eval_safe hk.typed hty hinputs).of_eq_ok hv)

theorem exists_representatives {args : List Term} {tys : List Ty}
    (htys : List.Forall₂ (fun a ty => a.infer k.machine.table k.signature.params = .ok ty) args tys)
    (hrep : ∀ a ∈ args, ∀ ty, a.infer k.machine.table k.signature.params = .ok ty →
      ∃ r, s.Stands k a ty r) :
    ∃ rs : List Entry, rs.map Entry.ty = tys ∧ (∀ r ∈ rs, r ∈ s.finished) ∧
      List.Forall₂ (k.machine.Yields k.examples) args (rs.map Entry.outputs) ∧
      List.Forall₂ (· ≤ ·) (rs.map Entry.size) (args.map (Term.size k.machine.table)) := by
  induction htys with
  | nil => exact ⟨[], rfl, by simp, .nil, .nil⟩
  | cons hhead _ ih =>
    obtain ⟨hrep, hreps⟩ := List.forall_mem_cons.mp hrep
    obtain ⟨r, hr, rfl, hyields, hsize⟩ := hrep _ hhead
    obtain ⟨rs, rfl, hrs, hcolumns, hsizes⟩ := ih hreps
    exact ⟨r :: rs, rfl, List.forall_mem_cons.mpr ⟨hr, hrs⟩, .cons hyields hcolumns,
      .cons hsize hsizes⟩

namespace State.Settled

theorem stands_of_represents (hs : s.Settled k) (hk : k.Proper) {e : Term} {ty : Ty}
    (hbuild : Buildable k.machine k.signature k.intConstants k.examples e)
    (hty : e.infer k.machine.table k.signature.params = .ok ty) {e' : Term} {n : Nat}
    (hcongr : ∀ outputs, k.machine.Yields k.examples e outputs →
      k.machine.Yields k.examples e' outputs)
    (hrep : s.Represents k e' n) (hn : n ≤ e.size k.machine.table) : ∃ r, s.Stands k e ty r := by
  obtain ⟨outputs, hyields⟩ := Machine.exists_yields (hbuild.values _ e.root_mem_subterms)
  obtain ⟨r, hr, rfl, hsize⟩ := hrep outputs (hcongr outputs hyields)
  obtain ⟨hsound, -⟩ := hs.valid.of_kept hr
  exact ⟨r, hs.kept_eq ▸ hr, hsound.ty_eq hk hty hyields, hyields, Nat.le_trans hsize hn⟩

theorem representative_of_isLeaf (hs : s.Settled k) (hk : k.Proper) {e : Term}
    (hleaf : e.isLeaf = true) {ty : Ty}
    (hbuild : Buildable k.machine k.signature k.intConstants k.examples e)
    (hty : e.infer k.machine.table k.signature.params = .ok ty) : ∃ r, s.Stands k e ty r := by
  obtain ⟨l, hl, rfl⟩ := hbuild.leaves _ e.root_mem_subterms hleaf
  exact hs.stands_of_represents hk hbuild hty (fun _ h => h) (hs.terminals l hl)
    (hk.costed.one_le_size l.term)

theorem two_le_applied (hs : s.Settled k) (hk : k.Proper) {id : PrimId} {args : List Term}
    (hbuild : Buildable k.machine k.signature k.intConstants k.examples (.apply id args))
    {p : Primitive} (hget : k.machine.table.get? id = some p) {rs : List Entry}
    (htys : rs.map Entry.ty = p.signature.params) (hrs : ∀ r ∈ rs, r ∈ s.finished) :
    2 ≤ p.cost + (rs.map Entry.size).sum := by
  have hcost := hk.costed p (Table.mem_of_get? hget)
  cases rs with
  | nil =>
    have harity : p.arity = 0 := by
      rw [Primitive.arity, Signature.arity, ← htys]
      rfl
    have hweight := hbuild.weights _ (Term.root_mem_subterms _) id rfl p hget harity
    omega
  | cons r rs =>
    obtain ⟨-, hone, -⟩ := hs.valid.level_of_finished (hrs r List.mem_cons_self)
    rw [List.map_cons, List.sum_cons]
    omega

/-- **Every buildable program of a size that was reached has a representative.** -/
theorem representative (hs : s.Settled k) (hk : k.Proper) (e : Term) :
    ∀ ty, Buildable k.machine k.signature k.intConstants k.examples e →
      e.infer k.machine.table k.signature.params = .ok ty →
      e.size k.machine.table ≤ s.levels.size → ∃ r, s.Stands k e ty r := by
  induction e using Term.inductionOn with
  | lit v => exact fun ty hbuild hty _ => hs.representative_of_isLeaf hk rfl hbuild hty
  | var i => exact fun ty hbuild hty _ => hs.representative_of_isLeaf hk rfl hbuild hty
  | apply id args ih =>
    intro ty hbuild hty hreached
    obtain ⟨p, hget, -, hargs⟩ := Term.infer_apply.mp hty
    have hsize := Term.size_apply k.machine.table id args
    rw [Table.cost_of_get? hget] at hsize
    have hsmaller : ∀ a ∈ args, a.size k.machine.table ≤ s.levels.size := fun a ha =>
      (Nat.le_of_lt (hk.costed.size_arg_lt id ha)).trans hreached
    obtain ⟨rs, htys, hrs, hcolumns, hsizes⟩ := exists_representatives hargs
      fun a ha ty hty => ih a ha ty (hbuild.arg ha) hty (hsmaller a ha)
    have hsum := hsizes.sum_le_sum
    have happlied : s.Applied p (rs.map Entry.size) (.apply p.id (rs.map Entry.term)) :=
      ⟨rs, hrs, htys, rfl, rfl⟩
    have htwo := hs.two_le_applied hk hbuild hget htys hrs
    -- the primitive applied to the representatives has the outputs of the program, and is no larger
    refine hs.stands_of_represents hk hbuild hty ?_
      (hs.applications p (Table.mem_of_get? hget) _ _ happlied htwo (by omega)) (by omega)
    intro outputs hyields
    rw [hk.indexed.id_eq hget]
    exact (yields_apply_congr hk.typed.ternary hget hargs.length_eq hcolumns
      (columns_of_sound fun r hr => (hs.valid.level_of_finished (hrs r hr)).1)).mp hyields

theorem unreached (hs : s.Settled k) (hk : k.Proper) {e : Term}
    (hbuild : Buildable k.machine k.signature k.intConstants k.examples e)
    (hty : e.infer k.machine.table k.signature.params = .ok k.signature.ret)
    (hsolves : ∀ ex ∈ k.examples, k.machine.eval e ex.inputs = .ok ex.output) :
    s.levels.size < e.size k.machine.table := by
  by_contra hreached
  obtain ⟨r, hr, hret, hyields, -⟩ :=
    hs.representative hk e _ hbuild hty (Nat.not_lt.mp hreached)
  have hsolution : r.Solves k := ⟨hret, hyields.unique (yields_target_iff.mpr hsolves)⟩
  exact hs.valid.unsolved r (hs.kept_eq ▸ hr) hsolution

end State.Settled

/-! ## Completeness -/

/-- **Completeness and minimality.** Over a well-typed table that is not empty, if some buildable
program within the bounds solves the problem, then an enumeration stops for want of time or
candidates, or returns a solution that is no larger. -/
theorem run_complete {m : Machine} (hne : m.table.size ≠ 0) (ht : m.table.Indexed)
    (hcosts : m.table.Costed) (hwell : m.table.WellTyped) {b : Bounds} {examples : List Example}
    {signature : Signature} (hsig : Problem.signature examples = .ok signature) {e : Term}
    (he : Attainable m signature b examples e) :
    ∃ out, run m b examples = .ok out ∧
      (out.stats.exhaustedBy = some .timeBudget ∨ out.stats.exhaustedBy = some .candidateLimit ∨
        ∃ sol, out.solution = some sol ∧ sol.size ≤ e.size m.table) := by
  have hone := hcosts.one_le_size e
  have hmax := Nat.le_trans hone he.bounded
  refine ⟨_, run_eq_ok.mpr ⟨signature, hsig, hne, Nat.one_le_iff_ne_zero.mp hmax, rfl⟩, ?_⟩
  have hk : (b.task m examples signature).Proper := ⟨ht, hcosts, hwell, hsig⟩
  have hunreached : ∀ s : State, s.Settled (b.task m examples signature) →
      s.levels.size < e.size m.table :=
    fun s hs => hs.unreached hk he.buildable he.typed he.solves
  have hexplored : (search (b.task m examples signature)).Explored (b.task m examples signature) :=
    search_explored ht hcosts hwell.ternary hmax
  revert hexplored
  generalize search (b.task m examples signature) = halted
  obtain ⟨s, entry | reason⟩ := halted
  · rintro ⟨-, -, -, hsmallest⟩
    refine .inr (.inr ⟨_, rfl, ?_⟩)
    rcases hsmallest with hleast | ⟨s₀, hs₀, hpresent⟩
    · exact hleast ▸ hone
    · exact hpresent ▸ hunreached s₀ hs₀
  · intro hexplored
    cases reason with
    | maxSize =>
      obtain ⟨s₀, hs₀, hall⟩ := hexplored
      exact absurd (hunreached s₀ hs₀) (Nat.not_lt.mpr (hall ▸ he.bounded))
    | timeBudget => exact .inl rfl
    | candidateLimit => exact .inr (.inl rfl)

/-- Over the builtin operations, a program that adds one is found unless a budget is used up. -/
theorem run_complete_successor :
    let m := Table.builtins.machine .standard
    let b : Bounds := ⟨[0, 1, 2], 4, 5000, fun _ => false⟩
    let examples : List Example := [⟨[.int 1], .int 2⟩, ⟨[.int 5], .int 6⟩]
    let e : Term := .apply 0 [.var 0, .lit (.int 1)]
    Attainable m ⟨[.int], .int⟩ b examples e ∧
      ∃ out, run m b examples = .ok out ∧
        (out.stats.exhaustedBy = some .timeBudget ∨ out.stats.exhaustedBy = some .candidateLimit ∨
          ∃ sol, out.solution = some sol ∧ sol.size ≤ e.size m.table) :=
  have he : Attainable (Table.builtins.machine .standard) ⟨[.int], .int⟩
      ⟨[0, 1, 2], 4, 5000, fun _ => false⟩ [⟨[.int 1], .int 2⟩, ⟨[.int 5], .int 6⟩]
      (.apply 0 [.var 0, .lit (.int 1)]) := by decide +kernel
  ⟨he, run_complete (by decide) (by decide) (by decide) (by decide) rfl he⟩

/-! ## What completeness needs

An enumeration over the empty table is refused, even if an input variable solves the problem. And
where a builtin operation declares another result than it has, outputs no longer determine the type:
a program of the wrong type is kept first, and the solution with the same outputs is dropped. -/

/-- Two negations, the first of which declares that it returns a boolean. -/
def misdeclared : Table :=
  ⟨#[⟨0, "neg", ⟨[.int], .bool⟩, .builtin .neg, 1⟩, .ofBuiltin 1 .neg]⟩

theorem run_misdeclared :
    run (misdeclared.machine .standard) ⟨[], 2, 100, fun _ => false⟩ [⟨[.int 1], .int (-1)⟩] =
      .ok ⟨none, ⟨2, 6, 5, 1, 0, some .maxSize⟩⟩ := by
  have hmachine : (misdeclared.machine .standard).table = misdeclared := rfl
  have htable : misdeclared.toList =
      [⟨0, "neg", ⟨[.int], .bool⟩, .builtin .neg, 1⟩, .ofBuiltin 1 .neg] := rfl
  have hterminals : Terminal.all misdeclared [.int] [] =
      [⟨.var 0, .int⟩, ⟨.lit (.bool true), .bool⟩, ⟨.lit (.bool false), .bool⟩,
        ⟨.lit (.list []), .list⟩] := rfl
  have hfirst : (misdeclared.machine .standard).apply 0 [.int 1] = .ok (.int (-1)) := rfl
  have hsecond : (misdeclared.machine .standard).apply 1 [.int 1] = .ok (.int (-1)) := rfl
  refine run_eq_ok.mpr ⟨⟨[.int], .int⟩, rfl, by decide, by decide, ?_⟩
  -- the hash of a value does not reduce, so the search is run by rewriting
  simp [Bounds.task, search, Halted.outcome, firstLevel, levelsFrom, level, State.start,
    State.finishLevel, Stats.zero, hmachine, htable, hterminals, hfirst, hsecond, considerTerminal,
    Machine.eval, Machine.evalAt, Machine.evalWith, offer, count, clockStride, checkClock,
    Task.target, compose, composeSplit, compositions, pool, forTuples, considerApplication,
    applyRows, Primitive.ofBuiltin, Primitive.arity, Builtin.signature, Builtin.cost,
    Signature.arity, bind, Except.bind, pure, Except.pure]

theorem run_incomplete :
    (Table.empty.Indexed ∧ Table.empty.Costed ∧ Table.empty.WellTyped ∧
      Problem.signature [⟨[.int 1], .int 1⟩] = .ok ⟨[.int], .int⟩ ∧
      Attainable (Table.empty.machine .standard) ⟨[.int], .int⟩ ⟨[], 1, 100, fun _ => false⟩
        [⟨[.int 1], .int 1⟩] (.var 0) ∧
      run (Table.empty.machine .standard) ⟨[], 1, 100, fun _ => false⟩ [⟨[.int 1], .int 1⟩] =
        .error .emptyTable) ∧
    (misdeclared.Indexed ∧ misdeclared.Costed ∧ (∀ p ∈ misdeclared.toList, p.body? = none) ∧
      Problem.signature [⟨[.int 1], .int (-1)⟩] = .ok ⟨[.int], .int⟩ ∧
      Attainable (misdeclared.machine .standard) ⟨[.int], .int⟩ ⟨[], 2, 100, fun _ => false⟩
        [⟨[.int 1], .int (-1)⟩] (.apply 1 [.var 0]) ∧
      run (misdeclared.machine .standard) ⟨[], 2, 100, fun _ => false⟩ [⟨[.int 1], .int (-1)⟩] =
        .ok ⟨none, ⟨2, 6, 5, 1, 0, some .maxSize⟩⟩) := by
  refine ⟨⟨by decide, by decide, by decide, rfl, by decide +kernel, rfl⟩,
    ⟨by decide, by decide, by decide, rfl, by decide +kernel, run_misdeclared⟩⟩

end Exemplar.Enumeration
