import Exemplar.Proofs.Evolution.Variation
import Exemplar.Random.SplitMix

/-!
# What offspring are made of

**Recombination loses nothing and adds nothing**: the leaves and applied primitives of the two children are
those of the parents, and with them nodes and sizes add up (`crossover_conserves`). **Mutation stays within
bounds of its kind**: a point mutation keeps the form of the program, a hoisted program was a subterm, and one
with a subterm grown anew is no deeper than before or than allowed (`mutate_keeps`). Both keep types.

Every operator but hoisting replaces subterms, so that all of this follows from what a replacement does to
symbols, form and depth (`Term.Replaced`).
-/

namespace Exemplar.Vocabulary

variable {v : Vocabulary} {a b e : Term} {σ : Type} [RandomSource σ]

/-! ## Recombination -/

/-- No subterm of the first program has the type of a subterm of the second one. -/
def Unrelated (v : Vocabulary) (a b : Term) : Prop :=
  ∀ x ∈ a.subterms, ∀ y ∈ b.subterms, ∀ ty, x.2.infer v.table v.inputs = .ok ty →
    y.2.infer v.table v.inputs ≠ .ok ty

theorem Unrelated.exchangePoints_eq_nil (h : v.Unrelated a b) : v.exchangePoints a b = [] := by
  refine List.eq_nil_iff_forall_not_mem.mpr ?_
  rintro ⟨p, q⟩ hmem
  obtain ⟨x, y, ty, hx, hxty, hy, hyty⟩ := mem_exchangePoints.mp hmem
  exact h (p, x) (Term.mem_subterms_iff.mpr hx) (q, y) (Term.mem_subterms_iff.mpr hy) ty hxty hyty

theorem symbols_exchange {p q : Term.Path} {x y : Term} (hx : a.at? p = some x) (hy : b.at? q = some y) :
    (a.exchange b p q).1.symbols + (a.exchange b p q).2.symbols = a.symbols + b.symbols := by
  have ha := (Term.replaced_replaceAt hx y).symbols_add
  have hb := (Term.replaced_replaceAt hy x).symbols_add
  rw [Term.exchange, hx, hy]
  -- the exchanged subterms stand on both sides
  refine add_right_cancel (b := x.symbols + y.symbols) ?_
  calc (Term.replaceAt y a p).symbols + (Term.replaceAt x b q).symbols + (x.symbols + y.symbols)
    _ = (Term.replaceAt y a p).symbols + x.symbols + ((Term.replaceAt x b q).symbols + y.symbols) :=
      add_add_add_comm _ _ _ _
    _ = a.symbols + y.symbols + (b.symbols + x.symbols) := by rw [ha, hb]
    _ = a.symbols + b.symbols + (y.symbols + x.symbols) := add_add_add_comm _ _ _ _
    _ = a.symbols + b.symbols + (x.symbols + y.symbols) := by rw [add_comm y.symbols]

theorem crossover_symbols (v : Vocabulary) (a b : Term) :
    (v.crossover a b : Draw σ (Term × Term)).Ensures fun r =>
      r.1.symbols + r.2.symbols = a.symbols + b.symbols := by
  refine (Random.choose_ensures (v.exchangePoints a b)).bind fun r hr => ?_
  match r with
  | some (p, q) =>
    obtain ⟨x, y, -, hx, -, hy, -⟩ := mem_exchangePoints.mp (hr.2 (p, q) rfl)
    exact .pure (symbols_exchange hx hy)
  | none => exact .pure rfl

theorem Unrelated.crossover_eq (h : v.Unrelated a b) :
    (v.crossover a b : Draw σ (Term × Term)).Ensures fun r => r = (a, b) := by
  refine (Random.choose_ensures (v.exchangePoints a b)).bind fun r hr => ?_
  rw [hr.1.mpr h.exchangePoints_eq_nil]
  exact .pure rfl

/-- **Recombination conserves types and material.** The children together have the nodes, the size, and the
leaves and applied primitives of the parents together; each child has the type of its parent, if that has one;
and parents without subterms of one type come back unchanged. -/
theorem crossover_conserves (v : Vocabulary) (a b : Term) :
    (v.crossover a b : Draw σ (Term × Term)).Ensures fun r =>
      r.1.nodes + r.2.nodes = a.nodes + b.nodes ∧
      r.1.size v.table + r.2.size v.table = a.size v.table + b.size v.table ∧
      r.1.symbols + r.2.symbols = a.symbols + b.symbols ∧
      (∀ ty, a.infer v.table v.inputs = .ok ty → r.1.infer v.table v.inputs = .ok ty) ∧
      (∀ ty, b.infer v.table v.inputs = .ok ty → r.2.infer v.table v.inputs = .ok ty) ∧
      (v.Unrelated a b → r = (a, b)) := by
  intro source
  obtain ⟨ha, hb⟩ := crossover_ensures v a b source
  have hsymbols := crossover_symbols v a b source
  exact ⟨Term.nodes_add_of_symbols hsymbols, Term.weight_add_of_symbols _ hsymbols, hsymbols, ha, hb,
    fun h => h.crossover_eq source⟩

/-- A conditional and a negation exchange a subterm each; a comparison and the empty list have none of one
type. -/
theorem crossover_conserves_conditional :
    let v := ofProblem (Table.ofBuiltins [.cond, .lt, .neg]) [.int] [0, 1, 2]
    let a : Term := .apply 0 [.apply 1 [.var 0, .lit (.int 0)], .var 0, .lit (.int 1)]
    let b : Term := .apply 2 [.lit (.int 2)]
    let r := ((v.crossover a b).run (SplitMix.ofSeed 0)).1
    let compared : Term := .apply 1 [.var 0, .lit (.int 0)]
    let nothing : Term := .lit (.list [])
    r.1 ≠ a ∧ r.2 ≠ b ∧ r.1.nodes + r.2.nodes = 8 ∧ r.1.symbols + r.2.symbols = a.symbols + b.symbols ∧
    r.1.infer v.table v.inputs = .ok .int ∧ v.Unrelated compared nothing ∧
    ∀ source : SplitMix, ((v.crossover compared nothing).run source).1 = (compared, nothing) := by
  intro v a b r compared nothing
  obtain ⟨hnodes, -, hsymbols, htype, -, -⟩ := crossover_conserves v a b (SplitMix.ofSeed 0)
  have hunrelated : v.Unrelated compared nothing := by
    have hnone : ∀ x ∈ compared.subterms, x.2.infer v.table v.inputs ≠ .ok .list := by decide
    intro x hx y hy ty hxty hyty
    rw [List.mem_singleton.mp hy] at hyty
    obtain rfl : Ty.list = ty := Except.ok.inj hyty
    exact hnone x hx hxty
  refine ⟨by decide +kernel, by decide +kernel, hnodes, hsymbols, htype .int rfl, hunrelated, ?_⟩
  intro source
  obtain ⟨-, -, -, -, -, hunchanged⟩ := crossover_conserves v compared nothing source
  exact hunchanged hunrelated

/-! ## Mutation -/

theorem substitute_alike (hv : v.Sound) (ty : Ty) (s : Term) :
    (v.substitute ty s : Draw σ (Option Term)).Ensures fun r => ∀ new ∈ r, Term.Alike s new := by
  have hleaf (hs : s.isLeaf = true) :
      (v.leaf ty : Draw σ (Option Term)).Ensures fun r => ∀ new ∈ r, Term.Alike s new := by
    refine (leaf_ensures hv ty 0).imp fun r hr new hnew => Term.alike_of_isLeaf hs ?_
    exact Term.isLeaf_of_depth (Nat.le_zero.mp (hr new hnew).depth_le)
  cases s with
  | lit w => exact hleaf rfl
  | var i => exact hleaf rfl
  | apply id args =>
    refine (Draw.Ensures.true _).bind fun r _ => .pure ?_
    intro new hnew
    obtain ⟨i, -, rfl⟩ := Option.map_eq_some_iff.mp hnew
    exact Term.alike_apply id i args

theorem mutatePoint_alike (hv : v.Sound) (e : Term) :
    (v.mutatePoint e : Draw σ Term).Ensures (Term.Alike e) := by
  refine (choose_typedSubterms_ensures v e).bind fun r hr => ?_
  match r with
  | none => exact .pure (.refl e)
  | some (path, ty) =>
    obtain ⟨s, hat, -⟩ := hr path ty rfl
    simp only [hat]
    refine (substitute_alike hv ty s).bind fun r hr => .pure ?_
    cases r with
    | none => exact .refl e
    | some new => exact (Term.replaced_replaceAt hat new).alike (hr new rfl)

theorem mutateSubtree_depth (hv : v.Sound) (maxDepth : Nat) (e : Term) :
    (v.mutateSubtree maxDepth e : Draw σ Term).Ensures fun m => m.depth ≤ max e.depth maxDepth := by
  refine (choose_typedSubterms_ensures v e).bind fun r hr => ?_
  match r with
  | none => exact .pure (Nat.le_max_left _ _)
  | some (path, ty) =>
    obtain ⟨s, hat, -⟩ := hr path ty rfl
    refine (tree_ensures hv .grow (maxDepth - path.length) ty).bind fun r hr => .pure ?_
    cases r with
    | none => exact Nat.le_max_left _ _
    | some new =>
      have hreplaced := Term.replaced_replaceAt hat new
      have hwithin := hreplaced.length_add_depth_le
      have hgrown := (hr new rfl).depth_le
      refine hreplaced.depth_le.trans ?_
      -- beyond the greatest depth a leaf is grown, and the path lies within the program
      omega

theorem mutateHoist_subterm (v : Vocabulary) (e : Term) :
    (v.mutateHoist e : Draw σ Term).Ensures fun m => ∃ path, e.at? path = some m := by
  refine (Draw.Ensures.true _).bind fun r _ => .pure ?_
  cases hat : r.bind e.at? with
  | none => exact ⟨[], by rw [Option.getD_none, Term.at?]⟩
  | some m =>
    obtain ⟨path, -, hm⟩ := Option.bind_eq_some_iff.mp hat
    exact ⟨path, hm⟩

/-- **Mutation keeps what its kind promises.** Of a program with a type, every mutation has that type; a point
mutation has as many nodes, the same depth and the same paths to subterms; with a subterm grown anew it is at
most as deep as before or as deep as allowed; and hoisting returns the program or a proper subterm of it. -/
theorem mutate_keeps {t : Table} (ht : t.Indexed) (inputs : List Ty) (ints : List Int) {e : Term} {ty : Ty}
    (he : e.infer t inputs = .ok ty) (maxDepth : Nat) :
    let v := ofProblem t inputs ints
    (∀ kind, (v.mutate maxDepth e kind : Draw σ Term).Ensures fun m => m.infer t inputs = .ok ty) ∧
    (v.mutate maxDepth e .point : Draw σ Term).Ensures
      (fun m => m.nodes = e.nodes ∧ m.depth = e.depth ∧ m.paths = e.paths) ∧
    (v.mutate maxDepth e .subtree : Draw σ Term).Ensures (fun m => m.depth ≤ max e.depth maxDepth) ∧
    (v.mutate maxDepth e .hoist : Draw σ Term).Ensures
      (fun m => m = e ∨ ∃ path, path ≠ [] ∧ e.at? path = some m) := by
  intro v
  have hv : v.Sound := sound_ofProblem ht inputs ints
  refine ⟨fun kind => (mutate_ensures hv maxDepth e kind).imp fun m hm => hm ty he,
    (mutatePoint_alike hv e).imp fun m hm => ⟨hm.nodes, hm.depth, hm.paths⟩,
    mutateSubtree_depth hv maxDepth e, (mutateHoist_subterm v e).imp ?_⟩
  rintro m ⟨path, hpath⟩
  by_cases hroot : path = []
  · rw [hroot, Term.at?] at hpath
    exact .inl (Option.some.inj hpath).symm
  · exact .inr ⟨path, hroot, hpath⟩

/-- One mutation of each kind of a product, none of which returns the program itself. -/
theorem mutate_keeps_product :
    let t := Table.ofBuiltins [.add, .mul, .neg, .cond, .lt]
    let v := ofProblem t [.int] [0, 1, 2]
    let e : Term := .apply 1 [.apply 2 [.var 0], .lit (.int 2)]
    let mutant := fun kind => ((v.mutate 3 e kind).run (SplitMix.ofSeed 0)).1
    t.Indexed ∧ e.infer t [.int] = .ok .int ∧
    (∀ kind, mutant kind ≠ e ∧ (mutant kind).infer t [.int] = .ok .int) ∧
    (mutant .point).paths = e.paths ∧ (mutant .subtree).depth ≤ 3 ∧
    ∃ path, path ≠ [] ∧ e.at? path = some (mutant .hoist) := by
  intro t v e mutant
  have ht : t.Indexed := by decide
  have he : e.infer t [.int] = .ok .int := rfl
  obtain ⟨htype, hpoint, hsubtree, hhoist⟩ := mutate_keeps (σ := SplitMix) ht [.int] [0, 1, 2] he 3
  have hnew : ∀ kind, mutant kind ≠ e := by
    intro kind
    cases kind <;> decide +kernel
  refine ⟨ht, he, fun kind => ⟨hnew kind, htype kind _⟩, (hpoint _).2.2, hsubtree _, ?_⟩
  exact (hhoist (SplitMix.ofSeed 0)).resolve_left (hnew .hoist)

end Exemplar.Vocabulary
