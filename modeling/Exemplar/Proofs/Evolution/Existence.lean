import Exemplar.Proofs.Evolution.Trees
import Exemplar.Random.SplitMix

/-!
# Which trees can be grown

**A tree is grown exactly if there is one**: a program of the type, at most of the depth, over the terminals
of the vocabulary (`tree_exact`). So whether growing succeeds depends neither on the method nor on the words
of the source.

There is such a program within a depth if there is a terminal of the type, or a primitive whose parameters
all have programs within one level less (`producible_succ`). Growing decides the same by trying: terminals at
one of two points, and the primitives in some order until one can be completed (`firstApplication_isSome`).
-/

namespace Exemplar.Vocabulary

variable {v : Vocabulary} {ty : Ty} {depth : Nat} {e : Term}

/-! ## Programs over a vocabulary -/

/-- All leaves of a program are terminals of the vocabulary. -/
def Covers (v : Vocabulary) (e : Term) : Prop :=
  ∀ s ∈ e.subterms, s.2.isLeaf = true → ∃ l ∈ v.terminals, l.term = s.2

/-- There is a program of a type, at most of a depth, over the terminals of the vocabulary. -/
def Producible (v : Vocabulary) (ty : Ty) (depth : Nat) : Prop :=
  ∃ e, v.IsTree ty depth e ∧ v.Covers e

theorem Sound.mem_leaves_iff (hv : v.Sound) :
    e ∈ v.leaves ty ↔ e.isLeaf = true ∧ e.infer v.table v.inputs = .ok ty ∧ v.Covers e := by
  rw [leaves, List.mem_map]
  constructor
  · rintro ⟨l, hl, rfl⟩
    obtain ⟨hmem, hty⟩ := List.mem_filter.mp hl
    have hleaf := hv.leaf l hmem
    refine ⟨hleaf, of_decide_eq_true hty ▸ hv.typed l hmem, fun s hs _ => ⟨l, hmem, ?_⟩⟩
    rw [Term.subterms_of_isLeaf hleaf, List.mem_singleton] at hs
    rw [hs]
  · rintro ⟨hleaf, hty, hcovers⟩
    obtain ⟨l, hl, rfl⟩ := hcovers _ e.root_mem_subterms hleaf
    have hsame := Except.ok.inj ((hv.typed l hl).symm.trans hty)
    exact ⟨l, List.mem_filter.mpr ⟨hl, decide_eq_true hsame⟩, rfl⟩

theorem covers_apply {id : PrimId} {args : List Term} :
    v.Covers (.apply id args) ↔ ∀ a ∈ args, v.Covers a := by
  constructor
  · intro h a ha s hs
    obtain ⟨path, hpath⟩ := Term.mem_subterms_of_arg id ha hs
    exact h (path, s.2) hpath
  · rintro h ⟨path, s⟩ hs hleaf
    rcases Term.mem_subterms_apply.mp hs with ⟨-, rfl⟩ | ⟨i, a, rest, hget, -, hmem⟩
    · cases hleaf
    · exact h a (List.mem_of_getElem? hget) (rest, s) hmem hleaf

theorem Sound.producible_of_leaf (hv : v.Sound) (h : e ∈ v.leaves ty) : v.Producible ty depth :=
  ⟨e, hv.isTree_of_mem_leaves h, (hv.mem_leaves_iff.mp h).2.2⟩

theorem Sound.leaves_ne_nil (hv : v.Sound) (hleaf : e.isLeaf = true) (htree : v.IsTree ty depth e)
    (hcovers : v.Covers e) : v.leaves ty ≠ [] :=
  List.ne_nil_of_mem (hv.mem_leaves_iff.mpr ⟨hleaf, htree.typed, hcovers⟩)

theorem producible_zero (hv : v.Sound) : v.Producible ty 0 ↔ v.leaves ty ≠ [] := by
  constructor
  · rintro ⟨e, htree, hcovers⟩
    exact hv.leaves_ne_nil (Term.isLeaf_of_depth (Nat.le_zero.mp htree.depth_le)) htree hcovers
  · intro hne
    obtain ⟨e, he⟩ := List.exists_mem_of_ne_nil _ hne
    exact hv.producible_of_leaf he

theorem producible_succ (hv : v.Sound) :
    v.Producible ty (depth + 1) ↔
      v.leaves ty ≠ [] ∨ ∃ p ∈ v.producers ty, ∀ u ∈ p.signature.params, v.Producible u depth := by
  constructor
  · rintro ⟨e, htree, hcovers⟩
    cases e with
    | lit w => exact .inl (hv.leaves_ne_nil rfl htree hcovers)
    | var i => exact .inl (hv.leaves_ne_nil rfl htree hcovers)
    | apply id args =>
      obtain ⟨p, hget, hret, hargs⟩ := Term.infer_apply.mp htree.typed
      refine .inr ⟨p, List.mem_filter.mpr ⟨Table.mem_of_get? hget, decide_eq_true hret⟩, fun u hu => ?_⟩
      obtain ⟨i, hi, rfl⟩ := List.getElem_of_mem hu
      have hi' : i < args.length := hargs.length_eq ▸ hi
      have hmem := List.getElem_mem hi'
      exact ⟨args[i], ⟨hargs.get hi' hi, Term.depth_apply_le_iff.mp htree.depth_le _ hmem⟩,
        covers_apply.mp hcovers _ hmem⟩
  · rintro (hne | ⟨p, hp, hparams⟩)
    · obtain ⟨e, he⟩ := List.exists_mem_of_ne_nil _ hne
      exact hv.producible_of_leaf he
    · obtain ⟨hget, hret⟩ := hv.get?_of_mem_producers hp
      choose! argument hargument using hparams
      have hargs : List.Forall₂ (fun a u => v.IsTree u depth a ∧ v.Covers a)
          (p.signature.params.map argument) p.signature.params :=
        List.forall₂_map_left_iff.mpr (List.forall₂_same.mpr hargument)
      refine ⟨.apply p.id (p.signature.params.map argument),
        hret ▸ IsTree.apply hget (hargs.imp fun _ _ h => h.1), covers_apply.mpr ?_⟩
      exact List.forall_mem_map.mpr fun u hu => (hargument u hu).2

/-! ## Growing -/

variable {σ τ : Type}

section applications

variable {grow : Ty → Draw σ (Option Term)} {P : Ty → Prop}
  (hgrow : ∀ ty, (grow ty).Ensures fun r => (r.isSome = true ↔ P ty))
include hgrow

theorem arguments_isSome (tys : List Ty) :
    (arguments grow tys).Ensures fun r => (r.isSome = true ↔ ∀ ty ∈ tys, P ty) := by
  induction tys with
  | nil => exact .pure (by simp)
  | cons ty tys ih =>
    refine (hgrow ty).bind fun r hr => ?_
    simp only [List.forall_mem_cons, ← hr]
    cases r with
    | none => exact .pure (by simp)
    | some e => exact ih.bind fun rest hrest => .pure (by simpa using hrest)

theorem firstApplication_isSome (ps : List Primitive) :
    (firstApplication grow ps).Ensures fun r =>
      (r.isSome = true ↔ ∃ p ∈ ps, ∀ ty ∈ p.signature.params, P ty) := by
  induction ps with
  | nil => exact .pure (by simp)
  | cons p ps ih =>
    refine (arguments_isSome hgrow p.signature.params).bind fun r hr => ?_
    simp only [List.exists_mem_cons_iff, ← hr]
    cases r with
    | none => simpa using ih
    | some args => exact .pure (by simp)

end applications

variable [RandomSource σ] [RandomSource τ]

theorem leaf_isSome (v : Vocabulary) (ty : Ty) :
    (v.leaf ty : Draw σ (Option Term)).Ensures fun r => (r.isSome = true ↔ v.leaves ty ≠ []) :=
  (Random.choose_ensures (v.leaves ty)).imp fun _ hr =>
    Option.isSome_iff_ne_none.trans (not_congr hr.1)

theorem tree_isSome (hv : v.Sound) (method : Growth) (depth : Nat) (ty : Ty) :
    (v.tree method depth ty : Draw σ (Option Term)).Ensures fun r =>
      (r.isSome = true ↔ v.Producible ty depth) := by
  induction depth generalizing ty with
  | zero => exact (leaf_isSome v ty).imp fun _ hr => hr.trans (producible_zero hv).symm
  | succ depth ih =>
    simp only [producible_succ hv]
    refine (Draw.Ensures.true _).bind fun early _ => ?_
    have hearly : (if early then v.leaf ty else pure none : Draw σ (Option Term)).Ensures fun r =>
        r.isSome = true → v.leaves ty ≠ [] := by
      split
      · exact (leaf_isSome v ty).imp fun _ hr => hr.mp
      · exact .pure nofun
    refine hearly.bind fun r hr => ?_
    cases r with
    | some e => exact .pure (iff_of_true rfl (.inl (hr rfl)))
    | none =>
      refine (Random.shuffle_ensures _).bind fun order horder => ?_
      refine (firstApplication_isSome ih order).bind fun r hr => ?_
      simp only [horder.mem_iff] at hr
      cases r with
      | some e => exact .pure (iff_of_true rfl (.inr (hr.mp rfl)))
      | none =>
        -- no primitive can be completed, and the terminals are left
        have hnone := mt hr.mpr nofun
        exact (leaf_isSome v ty).imp fun _ hr => hr.trans (or_iff_left hnone).symm

/-- **A tree is grown exactly if there is one.** What is grown has the type and keeps to the depth; nothing is
grown if and only if no program over the terminals has that type within the depth. Another method and another
source come to the same answer. -/
theorem tree_exact {t : Table} (ht : t.Indexed) (inputs : List Ty) (ints : List Int) (ty : Ty)
    (depth : Nat) (method method' : Growth) (source : σ) (source' : τ) :
    let v := ofProblem t inputs ints
    let grown := ((v.tree method depth ty).run source).1
    (∀ e ∈ grown, e.infer t inputs = .ok ty ∧ e.depth ≤ depth) ∧
    (grown = none ↔ ¬ ∃ e, e.infer t inputs = .ok ty ∧ e.depth ≤ depth ∧ v.Covers e) ∧
    grown.isSome = ((v.tree method' depth ty).run source').1.isSome := by
  intro v grown
  have hv : v.Sound := sound_ofProblem ht inputs ints
  have hgrown : grown.isSome = true ↔ v.Producible ty depth := tree_isSome hv method depth ty source
  have hgrown' := tree_isSome hv method' depth ty source'
  refine ⟨fun e he => ?_, ?_, Bool.eq_iff_iff.mpr (hgrown.trans hgrown'.symm)⟩
  · have htree := tree_ensures hv method depth ty source e he
    exact ⟨htree.typed, htree.depth_le⟩
  · have hproducible : v.Producible ty depth ↔
        ∃ e, e.infer t inputs = .ok ty ∧ e.depth ≤ depth ∧ v.Covers e :=
      exists_congr fun e => ⟨fun h => ⟨h.1.typed, h.1.depth_le, h.2⟩, fun h => ⟨⟨h.1, h.2.1⟩, h.2.2⟩⟩
    rw [← Option.not_isSome_iff_eq_none, hgrown, hproducible]

/-- Predicates are made by a learned primitive only. Two runs tell that there is none at depth zero and one
at depth one, and thus what all other runs come to. -/
theorem tree_exact_predicate :
    let t := Table.builtins.push
      (.ofBody Table.builtins.size "above" ⟨[.int], Builtin.intPredicate⟩ (.var 0) 1)
    let v := ofProblem t [.int] [0]
    t.Indexed ∧
    (¬ ∃ e, e.infer t [.int] = .ok Builtin.intPredicate ∧ e.depth ≤ 0 ∧ v.Covers e) ∧
    (∃ e, e.infer t [.int] = .ok Builtin.intPredicate ∧ e.depth ≤ 1 ∧ v.Covers e) ∧
    ∀ source : SplitMix, ((v.tree .full 1 Builtin.intPredicate).run source).1.isSome = true := by
  intro t v
  have ht : t.Indexed := by decide +kernel
  have hrun : ((v.tree .grow 0 Builtin.intPredicate).run (SplitMix.ofSeed 7)).1 = none := by
    decide +kernel
  have hrun' : ((v.tree .grow 1 Builtin.intPredicate).run (SplitMix.ofSeed 7)).1.isSome = true := by
    decide +kernel
  have hexact (depth : Nat) (source : SplitMix) :=
    tree_exact ht [.int] [0] Builtin.intPredicate depth .grow .full (SplitMix.ofSeed 7) source
  obtain ⟨-, hnone, -⟩ := hexact 0 (SplitMix.ofSeed 7)
  obtain ⟨-, hsome, -⟩ := hexact 1 (SplitMix.ofSeed 7)
  refine ⟨ht, hnone.mp hrun, ?_, fun source => (hexact 1 source).2.2.symm.trans hrun'⟩
  by_contra hnot
  have hgrown := hsome.mpr hnot
  rw [hgrown] at hrun'
  cases hrun'

end Exemplar.Vocabulary
