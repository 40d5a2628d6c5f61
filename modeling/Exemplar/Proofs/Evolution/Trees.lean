import Exemplar.Evolution.Vocabulary
import Exemplar.Proofs.Random
import Exemplar.Proofs.Typing

/-!
# Trees that are grown

**A tree that is grown has the type that was asked for and at most the depth** (`tree_ensures`), whatever
the method and the words of the source.

By induction on the depth: the arguments of an application are trees of one level less
(`arguments_ensures`), and terminals are leaves of the types that they are listed with (`Sound`).
-/

namespace Exemplar.Vocabulary

variable {v : Vocabulary} {ty : Ty} {depth : Nat} {e : Term}

/-! ## Vocabularies -/

/-- Primitives carry their positions, and terminals are leaves of the types they are listed with. -/
structure Sound (v : Vocabulary) : Prop where
  indexed : v.table.Indexed
  typed : ∀ l ∈ v.terminals, l.term.infer v.table v.inputs = .ok l.ty
  leaf : ∀ l ∈ v.terminals, l.term.isLeaf = true

theorem sound_ofProblem {t : Table} (ht : t.Indexed) (inputs : List Ty) (ints : List Int) :
    (ofProblem t inputs ints).Sound :=
  ⟨ht, fun _ => Terminal.infer_of_mem_all ht, fun _ => Terminal.isLeaf_of_mem_all⟩

/-- A term of a type, at most of a depth. -/
structure IsTree (v : Vocabulary) (ty : Ty) (depth : Nat) (e : Term) : Prop where
  typed : e.infer v.table v.inputs = .ok ty
  depth_le : e.depth ≤ depth

theorem Sound.isTree_of_mem_leaves (hv : v.Sound) (h : e ∈ v.leaves ty) : v.IsTree ty depth e := by
  obtain ⟨l, hl, rfl⟩ := List.mem_map.mp h
  obtain ⟨hmem, hty⟩ := List.mem_filter.mp hl
  obtain rfl : l.ty = ty := of_decide_eq_true hty
  refine ⟨hv.typed l hmem, ?_⟩
  rw [Term.depth_of_isLeaf (hv.leaf l hmem)]
  exact Nat.zero_le depth

theorem IsTree.apply {p : Primitive} {id : PrimId} (hget : v.table.get? id = some p)
    {args : List Term}
    (hargs : List.Forall₂ (fun a ty => v.IsTree ty depth a) args p.signature.params) :
    v.IsTree p.signature.ret (depth + 1) (.apply id args) := by
  refine ⟨Term.infer_apply.mpr ⟨p, hget, rfl, hargs.imp fun _ _ h => h.typed⟩, ?_⟩
  have hdepths : ∀ a ∈ args, a.depth ≤ depth :=
    ((List.forall₂_and_left _ _).mp (hargs.imp fun _ _ h => ⟨h.depth_le, h⟩)).1
  exact Term.depth_apply_le_iff.mpr hdepths

theorem Sound.get?_of_mem_producers (hv : v.Sound) {p : Primitive} (h : p ∈ v.producers ty) :
    v.table.get? p.id = some p ∧ p.signature.ret = ty := by
  obtain ⟨hmem, hret⟩ := List.mem_filter.mp h
  exact ⟨hv.indexed.get?_id hmem, of_decide_eq_true hret⟩

/-! ## Growing -/

variable {σ : Type}

section applications

variable {grow : Ty → Draw σ (Option Term)}
  (hgrow : ∀ ty, (grow ty).Ensures fun r => ∀ e ∈ r, v.IsTree ty depth e)
include hgrow

theorem arguments_ensures (tys : List Ty) :
    (arguments grow tys).Ensures fun r =>
      ∀ es ∈ r, List.Forall₂ (fun e ty => v.IsTree ty depth e) es tys := by
  induction tys with
  | nil =>
    refine .pure ?_
    rintro _ ⟨⟩
    exact .nil
  | cons ty tys ih =>
    refine (hgrow ty).bind fun r hr => ?_
    cases r with
    | none => exact .pure nofun
    | some e =>
      refine ih.bind fun rest hrest => .pure ?_
      intro es hes
      obtain ⟨es, hmem, rfl⟩ := Option.map_eq_some_iff.mp hes
      exact .cons (hr e rfl) (hrest es hmem)

theorem firstApplication_ensures {ps : List Primitive}
    (hps : ∀ p ∈ ps, v.table.get? p.id = some p ∧ p.signature.ret = ty) :
    (firstApplication grow ps).Ensures fun r => ∀ e ∈ r, v.IsTree ty (depth + 1) e := by
  induction ps with
  | nil => exact .pure nofun
  | cons p ps ih =>
    obtain ⟨⟨hget, hret⟩, hrest⟩ := List.forall_mem_cons.mp hps
    refine (arguments_ensures hgrow p.signature.params).bind fun r hr => ?_
    cases r with
    | none => exact ih hrest
    | some args =>
      refine .pure ?_
      rintro _ ⟨⟩
      exact hret ▸ IsTree.apply hget (hr args rfl)

end applications

variable [RandomSource σ]

theorem leaf_ensures (hv : v.Sound) (ty : Ty) (depth : Nat) :
    (v.leaf ty : Draw σ (Option Term)).Ensures fun r => ∀ e ∈ r, v.IsTree ty depth e :=
  (Random.choose_ensures (v.leaves ty)).imp fun _ hr e he => hv.isTree_of_mem_leaves (hr.2 e he)

theorem tree_ensures (hv : v.Sound) (method : Growth) (depth : Nat) (ty : Ty) :
    (v.tree method depth ty : Draw σ (Option Term)).Ensures fun r =>
      ∀ e ∈ r, v.IsTree ty depth e := by
  induction depth generalizing ty with
  | zero => exact leaf_ensures hv ty 0
  | succ depth ih =>
    refine (Draw.Ensures.true _).bind fun early _ => ?_
    have hearly : (if early then v.leaf ty else pure none : Draw σ (Option Term)).Ensures fun r =>
        ∀ e ∈ r, v.IsTree ty (depth + 1) e := by
      split
      · exact leaf_ensures hv ty _
      · exact .pure nofun
    refine hearly.bind fun r hr => ?_
    cases r with
    | some e => exact .pure hr
    | none =>
      refine (Random.shuffle_ensures _).bind fun order horder => ?_
      have hproducers : ∀ p ∈ order, v.table.get? p.id = some p ∧ p.signature.ret = ty :=
        fun p hp => hv.get?_of_mem_producers (horder.mem_iff.mp hp)
      refine (firstApplication_ensures ih hproducers).bind fun r hr => ?_
      cases r with
      | some e => exact .pure hr
      | none => exact leaf_ensures hv ty _

end Exemplar.Vocabulary
