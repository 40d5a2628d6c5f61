import Exemplar.Evolution.Variation
import Exemplar.Proofs.Evolution.Trees
import Exemplar.Proofs.Term.Replacement

/-!
# Variation keeps types

**A recombined or mutated program has the type of the program it was made of** (`crossover_ensures`,
`mutate_ensures`), whatever the words of the source.

All operators but one replace a subterm by a term of its type, which keeps the type of the whole
(`Term.infer_replaceAt`); hoisting returns a subterm of the program's own type.
-/

namespace Exemplar

/-! ## Replacing a subterm -/

theorem forall₂_exchange {α β : Type} {R : α → β → Prop} {before after : List α} {a a' : α} {ys : List β}
    (h : List.Forall₂ R (before ++ a :: after) ys) (ha : ∀ y, R a y → R a' y) :
    List.Forall₂ R (before ++ a' :: after) ys := by
  induction before generalizing ys with
  | nil =>
    obtain ⟨y, ys, hhead, htail, rfl⟩ := List.forall₂_cons_left_iff.mp h
    exact .cons (ha y hhead) htail
  | cons b before ih =>
    obtain ⟨y, ys, hhead, htail, rfl⟩ := List.forall₂_cons_left_iff.mp h
    exact .cons hhead (ih htail)

theorem Term.Replaced.infer {t : Table} {inputs : List Ty} {path : Path} {e e' s new : Term} {ty u : Ty}
    (h : Replaced s new path e e') (hs : s.infer t inputs = .ok u) (hnew : new.infer t inputs = .ok u)
    (he : e.infer t inputs = .ok ty) : e'.infer t inputs = .ok ty := by
  induction h generalizing ty with
  | root =>
    obtain rfl := Except.ok.inj (he.symm.trans hs)
    exact hnew
  | arg id before after _ ih =>
    obtain ⟨p, hget, hret, hargs⟩ := infer_apply.mp he
    exact infer_apply.mpr ⟨p, hget, hret, forall₂_exchange hargs fun ty' h => ih h⟩

theorem Term.infer_replaceAt {t : Table} {inputs : List Ty} {path : Path} {e s new : Term}
    {ty u : Ty} (hat : e.at? path = some s) (hs : s.infer t inputs = .ok u)
    (hnew : new.infer t inputs = .ok u) (he : e.infer t inputs = .ok ty) :
    (replaceAt new e path).infer t inputs = .ok ty :=
  (replaced_replaceAt hat new).infer hs hnew he

namespace Vocabulary

variable {v : Vocabulary} {e e' : Term}

/-! ## Typed subterms -/

theorem mem_typedSubterms {path : Term.Path} {ty : Ty} :
    (path, ty) ∈ v.typedSubterms e ↔
      ∃ s, e.at? path = some s ∧ s.infer v.table v.inputs = .ok ty := by
  rw [typedSubterms, List.mem_filterMap]
  constructor
  · rintro ⟨⟨path', s⟩, hmem, h⟩
    obtain ⟨ty', hty, heq⟩ := Option.map_eq_some_iff.mp h
    obtain ⟨rfl, rfl⟩ := Prod.mk.inj heq
    refine ⟨s, Term.mem_subterms_iff.mp hmem, ?_⟩
    cases hinfer : s.infer v.table v.inputs with
    | ok u =>
      rw [hinfer] at hty
      exact congrArg _ (Option.some.inj hty)
    | error cause =>
      rw [hinfer] at hty
      cases hty
  · rintro ⟨s, hat, hty⟩
    exact ⟨(path, s), Term.mem_subterms_iff.mpr hat, by rw [hty]; rfl⟩

theorem typedSubterms_eq_cons {ty : Ty} (he : e.infer v.table v.inputs = .ok ty) :
    ∃ rest, v.typedSubterms e = ([], ty) :: rest := by
  obtain ⟨rest, hrest⟩ : ∃ rest, e.subterms = ([], e) :: rest := by
    cases e with
    | apply id args => exact ⟨Term.subtermsFrom 0 args, by rw [Term.subterms]⟩
    | _ => exact ⟨[], by rw [Term.subterms]⟩
  rw [typedSubterms, hrest, List.filterMap_cons, he]
  exact ⟨_, rfl⟩

theorem mem_exchangePoints {a b : Term} {p q : Term.Path} :
    (p, q) ∈ v.exchangePoints a b ↔
      ∃ x y ty, a.at? p = some x ∧ x.infer v.table v.inputs = .ok ty ∧
        b.at? q = some y ∧ y.infer v.table v.inputs = .ok ty := by
  rw [exchangePoints, List.mem_flatMap]
  constructor
  · rintro ⟨⟨p', ty⟩, hp, h⟩
    obtain ⟨⟨q', ty'⟩, hmem, heq⟩ := List.mem_map.mp h
    obtain ⟨rfl, rfl⟩ := Prod.mk.inj heq
    obtain ⟨hq, hty⟩ := List.mem_filter.mp hmem
    obtain rfl : ty' = ty := of_decide_eq_true hty
    obtain ⟨x, hx, hxty⟩ := mem_typedSubterms.mp hp
    obtain ⟨y, hy, hyty⟩ := mem_typedSubterms.mp hq
    exact ⟨x, y, ty', hx, hxty, hy, hyty⟩
  · rintro ⟨x, y, ty, hx, hxty, hy, hyty⟩
    refine ⟨(p, ty), mem_typedSubterms.mpr ⟨x, hx, hxty⟩, List.mem_map.mpr ⟨(q, ty), ?_, rfl⟩⟩
    exact List.mem_filter.mpr ⟨mem_typedSubterms.mpr ⟨y, hy, hyty⟩, decide_eq_true rfl⟩

/-! ## Operators -/

/-- The second program has the type of the first one, if that has one. -/
def KeepsType (v : Vocabulary) (e e' : Term) : Prop :=
  ∀ ty, e.infer v.table v.inputs = .ok ty → e'.infer v.table v.inputs = .ok ty

theorem KeepsType.refl (v : Vocabulary) (e : Term) : v.KeepsType e e := fun _ h => h

theorem KeepsType.trans {e'' : Term} (h : v.KeepsType e e') (h' : v.KeepsType e' e'') :
    v.KeepsType e e'' := fun ty hty => h' ty (h ty hty)

theorem keepsType_replaceAt {path : Term.Path} {s new : Term} (hat : e.at? path = some s)
    {u : Ty} (hs : s.infer v.table v.inputs = .ok u) (hnew : new.infer v.table v.inputs = .ok u) :
    v.KeepsType e (Term.replaceAt new e path) := fun _ he => Term.infer_replaceAt hat hs hnew he

theorem keepsType_exchange {a b : Term} {p q : Term.Path} (h : (p, q) ∈ v.exchangePoints a b) :
    v.KeepsType a (a.exchange b p q).1 ∧ v.KeepsType b (a.exchange b p q).2 := by
  obtain ⟨x, y, ty, hx, hxty, hy, hyty⟩ := mem_exchangePoints.mp h
  rw [Term.exchange, hx, hy]
  exact ⟨keepsType_replaceAt hx hxty hyty, keepsType_replaceAt hy hyty hxty⟩

theorem infer_of_mem_alternatives (hv : v.Sound) {id i : PrimId} (hi : i ∈ v.alternatives id)
    {args : List Term} {ty : Ty} (h : (Term.apply id args).infer v.table v.inputs = .ok ty) :
    (Term.apply i args).infer v.table v.inputs = .ok ty := by
  obtain ⟨p, hget, hret, hargs⟩ := Term.infer_apply.mp h
  rw [alternatives, hget] at hi
  obtain ⟨q, hq, rfl⟩ := List.mem_map.mp hi
  obtain ⟨hmem, hcond⟩ := List.mem_filter.mp hq
  obtain ⟨-, hsignature⟩ := of_decide_eq_true hcond
  exact Term.infer_apply.mpr
    ⟨q, hv.indexed.get?_id hmem, hsignature ▸ hret, hsignature ▸ hargs⟩

variable {σ : Type} [RandomSource σ]

theorem crossover_ensures (v : Vocabulary) (a b : Term) :
    (v.crossover a b : Draw σ (Term × Term)).Ensures fun r =>
      v.KeepsType a r.1 ∧ v.KeepsType b r.2 := by
  refine (Random.choose_ensures (v.exchangePoints a b)).bind fun r hr => ?_
  match r with
  | some (p, q) => exact .pure (keepsType_exchange (hr.2 (p, q) rfl))
  | none => exact .pure ⟨.refl v a, .refl v b⟩

theorem choose_typedSubterms_ensures (v : Vocabulary) (e : Term) :
    (Random.choose (v.typedSubterms e) : Draw σ (Option (Term.Path × Ty))).Ensures fun r =>
      ∀ path ty, r = some (path, ty) →
        ∃ s, e.at? path = some s ∧ s.infer v.table v.inputs = .ok ty :=
  (Random.choose_ensures _).imp fun _ hr _ _ h => mem_typedSubterms.mp (hr.2 _ h)

theorem substitute_ensures (hv : v.Sound) {ty : Ty} {s : Term}
    (hs : s.infer v.table v.inputs = .ok ty) :
    (v.substitute ty s : Draw σ (Option Term)).Ensures fun r =>
      ∀ new ∈ r, new.infer v.table v.inputs = .ok ty := by
  have hleaf : (v.leaf ty : Draw σ (Option Term)).Ensures fun r =>
      ∀ new ∈ r, new.infer v.table v.inputs = .ok ty :=
    (leaf_ensures hv ty 0).imp fun _ hr new hnew => (hr new hnew).typed
  cases s with
  | lit w => exact hleaf
  | var i => exact hleaf
  | apply id args =>
    refine (Random.choose_ensures (v.alternatives id)).bind fun r hr => .pure ?_
    intro new hnew
    obtain ⟨i, hi, rfl⟩ := Option.map_eq_some_iff.mp hnew
    exact infer_of_mem_alternatives hv (hr.2 i hi) hs

theorem keepsType_getD {path : Term.Path} {s : Term} (hat : e.at? path = some s) {ty : Ty}
    (hs : s.infer v.table v.inputs = .ok ty) {r : Option Term}
    (hr : ∀ new ∈ r, new.infer v.table v.inputs = .ok ty) :
    v.KeepsType e ((r.map fun new => Term.replaceAt new e path).getD e) := by
  cases r with
  | none => exact .refl v e
  | some new => exact keepsType_replaceAt hat hs (hr new rfl)

theorem mutatePoint_ensures (hv : v.Sound) (e : Term) :
    (v.mutatePoint e : Draw σ Term).Ensures (v.KeepsType e) := by
  refine (choose_typedSubterms_ensures v e).bind fun r hr => ?_
  match r with
  | none => exact .pure (.refl v e)
  | some (path, ty) =>
    obtain ⟨s, hat, hs⟩ := hr path ty rfl
    simp only [hat]
    exact (substitute_ensures hv hs).bind fun _ hnew => .pure (keepsType_getD hat hs hnew)

theorem mutateSubtree_ensures (hv : v.Sound) (maxDepth : Nat) (e : Term) :
    (v.mutateSubtree maxDepth e : Draw σ Term).Ensures (v.KeepsType e) := by
  refine (choose_typedSubterms_ensures v e).bind fun r hr => ?_
  match r with
  | none => exact .pure (.refl v e)
  | some (path, ty) =>
    obtain ⟨s, hat, hs⟩ := hr path ty rfl
    exact (tree_ensures hv .grow _ ty).bind fun _ hgrown =>
      .pure (keepsType_getD hat hs fun new hnew => (hgrown new hnew).typed)

theorem mutateHoist_ensures (v : Vocabulary) (e : Term) :
    (v.mutateHoist e : Draw σ Term).Ensures (v.KeepsType e) := by
  refine (Random.choose_ensures (v.hoistPoints e)).bind fun r hr => .pure ?_
  intro ty he
  obtain ⟨rest, hrest⟩ := typedSubterms_eq_cons he
  cases r with
  | none => exact he
  | some path =>
    have hpath := hr.2 path rfl
    simp only [hoistPoints, hrest] at hpath
    obtain ⟨⟨path', ty'⟩, hmem, rfl⟩ := List.mem_map.mp hpath
    obtain ⟨hproper, hty⟩ := List.mem_filter.mp hmem
    obtain rfl : ty' = ty := of_decide_eq_true hty
    have htyped : (path', ty') ∈ v.typedSubterms e := hrest ▸ List.mem_cons_of_mem _ hproper
    obtain ⟨s, hat, hs⟩ := mem_typedSubterms.mp htyped
    simpa [hat] using hs

theorem mutate_ensures (hv : v.Sound) (maxDepth : Nat) (e : Term) (kind : Mutation) :
    (v.mutate maxDepth e kind : Draw σ Term).Ensures (v.KeepsType e) := by
  cases kind with
  | point => exact mutatePoint_ensures hv e
  | subtree => exact mutateSubtree_ensures hv maxDepth e
  | hoist => exact mutateHoist_ensures v e

end Vocabulary

end Exemplar
