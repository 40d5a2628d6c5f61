import Exemplar.Proofs.Agreement
import Exemplar.Proofs.Typing

/-!
# Tables that grow

A table extends another one if it has all of its primitives at the same positions. What has a type
over the smaller table has it over the larger one (`Term.infer_extends`), with the same size and the same
text (`Extends.size_eq`, `Extends.render_eq`), and as long as bodies name nothing outside of the smaller
table, a program of the smaller table ends over both in the same way (`Extends.evalAt_eq`).
-/

namespace Exemplar

/-! ## Extension -/

namespace Table

variable {t t' : Table} {id : PrimId} {p : Primitive}

theorem lt_size_of_get? (h : t.get? id = some p) : id < t.size :=
  (Array.getElem?_eq_some_iff.mp h).1

theorem exists_of_lt_size (h : id < t.size) : ∃ p, t.get? id = some p :=
  ⟨t.entries[id], Array.getElem?_eq_getElem h⟩

@[simp] theorem size_push (t : Table) (p : Primitive) : (t.push p).size = t.size + 1 :=
  Array.size_push p

@[simp] theorem toList_push (t : Table) (p : Primitive) : (t.push p).toList = t.toList ++ [p] :=
  Array.toList_push

theorem get?_push_of_lt (p : Primitive) (h : id < t.size) : (t.push p).get? id = t.get? id :=
  Array.getElem?_push_lt h |>.trans (Array.getElem?_eq_getElem h).symm

@[simp] theorem get?_push_size (t : Table) (p : Primitive) : (t.push p).get? t.size = some p :=
  Array.getElem?_push_size

theorem Indexed.push (ht : t.Indexed) (hp : p.id = t.size) : (t.push p).Indexed := by
  intro i hi
  rcases Nat.lt_succ_iff_lt_or_eq.mp (hi.trans_eq (t.size_push p)) with hlt | rfl
  · exact (congrArg Primitive.id (Array.getElem_push_lt hlt)).trans (ht i hlt)
  · exact (congrArg Primitive.id Array.getElem_push_eq).trans hp

theorem Costed.push {p : Primitive} (ht : t.Costed) (hp : 1 ≤ p.cost) : (t.push p).Costed := by
  intro q hq
  rw [toList_push, List.mem_append, List.mem_singleton] at hq
  rcases hq with hq | rfl
  · exact ht q hq
  · exact hp

theorem Ternary.push_ofBody (ht : t.Ternary) (id : PrimId) (name : String) (s : Signature)
    (body : Term) (cost : Nat) : (t.push (.ofBody id name s body cost)).Ternary := by
  intro q hq hrule
  rw [toList_push, List.mem_append, List.mem_singleton] at hq
  rcases hq with hq | rfl
  · exact ht q hq hrule
  · cases hrule

/-- All primitives of a table are at the same positions of another one. -/
def Extends (t t' : Table) : Prop := ∀ id p, t.get? id = some p → t'.get? id = some p

theorem extends_push (t : Table) (p : Primitive) : t.Extends (t.push p) := by
  intro id q h
  rwa [get?_push_of_lt p (lt_size_of_get? h)]

theorem Extends.get?_eq (h : t.Extends t') (hid : id < t.size) : t'.get? id = t.get? id := by
  obtain ⟨p, hp⟩ := exists_of_lt_size hid
  rw [hp, h id p hp]

theorem Extends.size_le (h : t.Extends t') : t.size ≤ t'.size := by
  by_contra hlt
  obtain ⟨p, hget⟩ := exists_of_lt_size (Nat.not_le.mp hlt)
  exact Nat.lt_irrefl _ (lt_size_of_get? (h _ p hget))

end Table

/-! ## Types -/

section types

variable {t t' : Table}

theorem Fn.infer_extends (h : t.Extends t') {f : Fn} {s : Signature} (hf : f.infer t = .ok s) :
    f.infer t' = .ok s := by
  induction f generalizing s with
  | primitive id =>
    rw [Fn.infer] at hf ⊢
    cases hget : t.get? id with
    | none =>
      rw [hget] at hf
      cases hf
    | some p =>
      rw [hget] at hf
      rw [h id p hget]
      exact hf
  | compose outer inner ihOuter ihInner =>
    obtain ⟨o, i, ho, hi, hparams, rfl⟩ := Fn.infer_compose.mp hf
    exact Fn.infer_compose.mpr ⟨o, i, ihOuter ho, ihInner hi, hparams, rfl⟩

theorem Value.infer_extends (h : t.Extends t') {v : Value} {ty : Ty} (hv : v.infer t = .ok ty) :
    v.infer t' = .ok ty := by
  cases v with
  | func f =>
    obtain ⟨s, hs, hty⟩ := Value.hasTy_func.mp hv
    exact Value.hasTy_func.mpr ⟨s, Fn.infer_extends h hs, hty⟩
  | _ => exact hv

theorem Term.infer_extends (h : t.Extends t') {inputs : List Ty} {e : Term} {ty : Ty}
    (he : e.infer t inputs = .ok ty) : e.infer t' inputs = .ok ty := by
  induction e using Term.inductionOn generalizing ty with
  | lit v => exact Value.infer_extends h he
  | var i => exact Term.infer_var.mpr (Term.infer_var.mp he)
  | apply id args ih =>
    obtain ⟨p, hget, hret, hargs⟩ := Term.infer_apply.mp he
    refine Term.infer_apply.mpr ⟨p, h id p hget, hret, ?_⟩
    exact ((List.forall₂_and_left _ _).mpr ⟨ih, hargs⟩).imp fun a ty' h => h.1 h.2

theorem Primitive.WellTyped.extends {p : Primitive} (h : t.Extends t') (hp : p.WellTyped t) :
    p.WellTyped t' := by
  rw [Primitive.WellTyped] at hp ⊢
  split
  · rename_i b hrule
    rwa [hrule] at hp
  · rename_i body hrule
    rw [hrule] at hp
    exact Term.infer_extends h hp

theorem Table.WellTyped.push {p : Primitive} (ht : t.WellTyped) (hp : p.WellTyped (t.push p)) :
    (t.push p).WellTyped := by
  intro q hq
  rw [Table.toList_push, List.mem_append, List.mem_singleton] at hq
  rcases hq with hq | rfl
  · exact (ht q hq).extends (t.extends_push p)
  · exact hp

end types

/-! ## Scopes -/

section scopes

variable {t : Table}

theorem Fn.lt_size_of_infer {f : Fn} {s : Signature} (hf : f.infer t = .ok s) :
    ∀ id ∈ f.primitives, id < t.size := by
  induction f generalizing s with
  | primitive id =>
    rw [Fn.infer] at hf
    cases hget : t.get? id with
    | none =>
      rw [hget] at hf
      cases hf
    | some p => simpa [Fn.primitives] using Table.lt_size_of_get? hget
  | compose outer inner ihOuter ihInner =>
    obtain ⟨o, i, ho, hi, -, -⟩ := Fn.infer_compose.mp hf
    rw [Fn.primitives, List.forall_mem_append]
    exact ⟨ihOuter ho, ihInner hi⟩

theorem Term.lt_size_of_infer {inputs : List Ty} {e : Term} {ty : Ty}
    (he : e.infer t inputs = .ok ty) : ∀ id ∈ e.primitives, id < t.size := by
  induction e using Term.inductionOn generalizing ty with
  | lit v =>
    cases v with
    | func f =>
      obtain ⟨s, hs, -⟩ := Value.hasTy_func.mp he
      exact Fn.lt_size_of_infer hs
    | _ => simp [Term.primitives]
  | var i => simp [Term.primitives]
  | apply id args ih =>
    obtain ⟨p, hget, -, hargs⟩ := Term.infer_apply.mp he
    -- the types of the arguments are given pairwise, the induction speaks of single arguments
    have hscopes : ∀ a ∈ args, ∀ j ∈ a.primitives, j < t.size :=
      ((List.forall₂_and_left _ _).mp (((List.forall₂_and_left _ _).mpr ⟨ih, hargs⟩).imp
        fun a ty' h => ⟨h.1 h.2, h.2⟩)).1
    rw [Term.primitives, List.forall_mem_cons]
    refine ⟨Table.lt_size_of_get? hget, fun j hj => ?_⟩
    obtain ⟨a, ha, hja⟩ := Term.mem_primitivesList.mp hj
    exact hscopes a ha j hja

/-- The bodies of a table name primitives of the table only. -/
def Table.Sealed (t : Table) : Prop := ∀ id, ∀ j ∈ t.callees id, j < t.size

theorem Table.WellTyped.sealed (ht : t.WellTyped) : t.Sealed := by
  intro id j hj
  obtain ⟨p, body, hget, hrule, hmem⟩ := Table.mem_callees.mp hj
  have hbody := ht p (Table.mem_of_get? hget)
  rw [Primitive.WellTyped, hrule] at hbody
  exact Term.lt_size_of_infer hbody j hmem

theorem Value.within_of_hasTy {v : Value} {ty : Ty} (hv : v.HasTy t ty) :
    v.Within (· < t.size) := by
  cases v with
  | func f =>
    obtain ⟨s, hs, -⟩ := Value.hasTy_func.mp hv
    exact (Value.within_func f).mpr (Fn.lt_size_of_infer hs)
  | _ => simp

end scopes

/-! ## Sizes and texts -/

section views

variable {t t' : Table}

theorem Table.Extends.cost_eq (h : t.Extends t') {id : PrimId} (hid : id < t.size) :
    t'.cost id = t.cost id := by
  rw [Table.cost, Table.cost, h.get?_eq hid]

theorem Table.Extends.nameOf_eq (h : t.Extends t') {id : PrimId} (hid : id < t.size) :
    t'.nameOf id = t.nameOf id := by
  rw [Table.nameOf, Table.nameOf, h.get?_eq hid]

@[elab_as_elim]
theorem Term.inductionWithin {S : PrimId → Prop} {motive : Term → Prop}
    (lit : ∀ v, v.Within S → motive (.lit v)) (var : ∀ i, motive (.var i))
    (apply : ∀ id args, S id → (∀ a ∈ args, motive a) → motive (.apply id args)) (e : Term)
    (he : ∀ id ∈ e.primitives, S id) : motive e := by
  induction e using Term.inductionOn with
  | lit v =>
    refine lit v ?_
    cases v with
    | func f => exact he
    | _ => simp
  | var i => exact var i
  | apply id args ih =>
    rw [Term.primitives, List.forall_mem_cons] at he
    exact apply id args he.1 fun a ha =>
      ih a ha fun j hj => he.2 j (Term.mem_primitivesList.mpr ⟨a, ha, hj⟩)

theorem Table.Extends.size_eq (h : t.Extends t') {e : Term} (he : ∀ id ∈ e.primitives, id < t.size) :
    e.size t' = e.size t := by
  refine Term.inductionWithin (fun _ _ => rfl) (fun _ => rfl) ?_ e he
  intro id args hid ih
  rw [Term.size_apply, Term.size_apply, h.cost_eq hid, List.map_congr_left ih]

theorem Table.Extends.renderFn_eq (h : t.Extends t') {f : Fn}
    (hf : ∀ id ∈ f.primitives, id < t.size) : f.render t' = f.render t := by
  induction f with
  | primitive id => exact h.nameOf_eq (hf id (List.mem_singleton_self id))
  | compose outer inner ihOuter ihInner =>
    rw [Fn.primitives, List.forall_mem_append] at hf
    rw [Fn.render, Fn.render, ihOuter hf.1, ihInner hf.2]

theorem Term.renders_eq_map (t : Table) (es : List Term) :
    Term.renders t es = es.map (Term.render t) := by
  induction es with
  | nil => rfl
  | cons e es ih => rw [Term.renders, ih, List.map_cons]

theorem Table.Extends.render_eq (h : t.Extends t') {e : Term}
    (he : ∀ id ∈ e.primitives, id < t.size) : e.render t' = e.render t := by
  refine Term.inductionWithin ?_ (fun _ => rfl) ?_ e he
  · intro v hv
    cases v with
    | func f => exact h.renderFn_eq hv
    | _ => rfl
  · intro id args hid ih
    rw [Term.render, Term.render, Term.renders_eq_map, Term.renders_eq_map, h.nameOf_eq hid,
      List.map_congr_left ih]

end views

/-! ## Evaluation -/

namespace Table

variable {t t' : Table}

theorem similar_of_shared {S : PrimId → Prop} (hget : ∀ id, S id → t'.get? id = t.get? id)
    (hscope : ∀ id, S id → ∀ j ∈ t.callees id, S j) (limits : Limits) :
    Machine.Similar (.exact fun _ => True) S (t.machine limits) (t'.machine limits) where
  fits _ := .inl rfl
  get := hget
  callees := hscope
  plain _ _ := ⟨rfl, trivial⟩
  cap _ _ _ := .inr ⟨rfl, rfl, trivial⟩

theorem evalAt_eq_of_shared {S : PrimId → Prop} (hget : ∀ id, S id → t'.get? id = t.get? id)
    (hscope : ∀ id, S id → ∀ j ∈ t.callees id, S j) {limits : Limits} (n : Nat)
    {inputs : List Value} (hinputs : Value.AllWithin S inputs) {e : Term}
    (he : ∀ id ∈ e.primitives, S id) :
    (t'.machine limits).evalAt n inputs e = (t.machine limits).evalAt n inputs e :=
  (Machine.evalAt_agree (similar_of_shared hget hscope limits) (.inr ⟨rfl, rfl, trivial⟩) hinputs
    he).eq_of_exact

/-- **A program evaluates to the same when the table grows**, whatever is added. -/
theorem Extends.evalAt_eq (h : t.Extends t') (ht : t.Sealed) {limits : Limits} (n : Nat)
    {inputs : List Value} (hinputs : Value.AllWithin (· < t.size) inputs) {e : Term}
    (he : ∀ id ∈ e.primitives, id < t.size) :
    (t'.machine limits).evalAt n inputs e = (t.machine limits).evalAt n inputs e :=
  evalAt_eq_of_shared (fun _ hid => h.get?_eq hid) (fun id _ => ht id) n hinputs he

theorem Extends.applyAt_eq (h : t.Extends t') (ht : t.Sealed) {limits : Limits} (n : Nat)
    {id : PrimId} (hid : id < t.size) {args : List Value}
    (hargs : Value.AllWithin (· < t.size) args) :
    (t'.machine limits).applyAt n id args = (t.machine limits).applyAt n id args := by
  have hsimilar := similar_of_shared (fun _ hid => h.get?_eq hid) (fun id _ => ht id) limits
  have hcalls := Machine.callAt_agree hsimilar (n := n) (.inr ⟨rfl, rfl, trivial⟩)
  exact (hcalls.apply id args hid hargs).eq_of_exact

end Table

end Exemplar
