import Exemplar.Primitive
import Mathlib.Algebra.GroupWithZero.Nat
import Mathlib.Data.List.Forall2

/-!
# Subterms and measures of terms

Induction on a term whose hypothesis covers every argument (`inductionOn`), the subterms of an
application by the index of the argument that they lie in (`mem_subterms_apply`), the subterms as what
paths lead to (`mem_subterms_iff`), the positions that a list of terms names (`mem_primitivesList`), the
depth of an application (`depth_apply_le_iff`) and its weight as a sum over its arguments (`size_apply`).
-/

namespace Exemplar

namespace Term

/-! ## Induction -/

@[elab_as_elim]
theorem inductionOn {motive : Term → Prop} (lit : ∀ v, motive (.lit v)) (var : ∀ i, motive (.var i))
    (apply : ∀ id args, (∀ a ∈ args, motive a) → motive (.apply id args)) : ∀ e, motive e
  | .lit v => lit v
  | .var i => var i
  | .apply id args => apply id args (fun a _ => inductionOn lit var apply a)

/-! ## Shape -/

/-- Whether a term has no arguments of its own. -/
def isLeaf : Term → Bool
  | .lit _ => true
  | .var _ => true
  | .apply .. => false

/-- The primitive that a term applies at its root. -/
def head? : Term → Option PrimId
  | .apply id _ => some id
  | _ => none

/-! ## Subterms -/

theorem mem_subtermsFrom {args : List Term} {i : Nat} {path : Path} {s : Term} :
    (path, s) ∈ subtermsFrom i args ↔
      ∃ j a rest, args[j]? = some a ∧ path = (i + j) :: rest ∧ (rest, s) ∈ a.subterms := by
  induction args generalizing i with
  | nil => simp [subtermsFrom]
  | cons e es ih =>
    rw [subtermsFrom, List.mem_append, ih]
    constructor
    · rintro (hhead | ⟨j, a, rest, hget, rfl, hmem⟩)
      · obtain ⟨⟨rest, s'⟩, hmem, heq⟩ := List.mem_map.mp hhead
        obtain ⟨rfl, rfl⟩ := Prod.mk.inj heq
        exact ⟨0, e, rest, rfl, rfl, hmem⟩
      · exact ⟨j + 1, a, rest, hget, by rw [Nat.add_right_comm, Nat.add_assoc], hmem⟩
    · rintro ⟨j, a, rest, hget, rfl, hmem⟩
      cases j with
      | zero =>
        obtain rfl : e = a := by simpa using hget
        exact .inl (List.mem_map.mpr ⟨(rest, s), hmem, rfl⟩)
      | succ j => exact .inr ⟨j, a, rest, hget, by rw [Nat.add_right_comm, Nat.add_assoc], hmem⟩

theorem mem_subterms_apply {id : PrimId} {args : List Term} {path : Path} {s : Term} :
    (path, s) ∈ (Term.apply id args).subterms ↔
      (path = [] ∧ s = .apply id args) ∨
        ∃ i a rest, args[i]? = some a ∧ path = i :: rest ∧ (rest, s) ∈ a.subterms := by
  rw [subterms, List.mem_cons, mem_subtermsFrom]
  simp only [Prod.mk.injEq, Nat.zero_add]

theorem root_mem_subterms (e : Term) : ([], e) ∈ e.subterms := by
  cases e <;> simp [subterms]

theorem subterms_of_isLeaf {e : Term} (h : e.isLeaf = true) : e.subterms = [([], e)] := by
  cases e with
  | apply => cases h
  | _ => rw [subterms]

theorem mem_subterms_of_arg (id : PrimId) {args : List Term} {a : Term} (ha : a ∈ args)
    {s : Path × Term} (hs : s ∈ a.subterms) :
    ∃ path, (path, s.2) ∈ (Term.apply id args).subterms := by
  obtain ⟨i, hi, rfl⟩ := List.getElem_of_mem ha
  exact ⟨i :: s.1, mem_subterms_apply.mpr
    (.inr ⟨i, args[i], s.1, List.getElem?_eq_getElem hi, rfl, hs⟩)⟩

theorem mem_subterms_iff {e : Term} {path : Path} {s : Term} :
    (path, s) ∈ e.subterms ↔ e.at? path = some s := by
  induction e using inductionOn generalizing path with
  | lit v => cases path <;> simp [subterms, at?, eq_comm]
  | var i => cases path <;> simp [subterms, at?, eq_comm]
  | apply id args ih =>
    rw [mem_subterms_apply]
    cases path with
    | nil => simp [at?, eq_comm]
    | cons i rest =>
      rw [at?, Option.bind_eq_some_iff]
      constructor
      · rintro (⟨⟨⟩, -⟩ | ⟨_, a, _, hget, heq, hmem⟩)
        obtain ⟨rfl, rfl⟩ := List.cons.inj heq
        exact ⟨a, hget, (ih a (List.mem_of_getElem? hget)).mp hmem⟩
      · rintro ⟨a, hget, hat⟩
        exact .inr ⟨i, a, rest, hget, rfl, (ih a (List.mem_of_getElem? hget)).mpr hat⟩

/-! ## Positions -/

theorem mem_primitivesList {es : List Term} {id : PrimId} :
    id ∈ primitivesList es ↔ ∃ e ∈ es, id ∈ e.primitives := by
  induction es with
  | nil => simp [primitivesList]
  | cons e es ih => simp [primitivesList, ih]

theorem mem_primitives_of_mem_subterms {e : Term} {path : Path} {s : Term}
    (hs : (path, s) ∈ e.subterms) {id : PrimId} (hid : id ∈ s.primitives) : id ∈ e.primitives := by
  induction e using inductionOn generalizing path with
  | lit v =>
    obtain ⟨-, rfl⟩ := Prod.mk.inj (List.mem_singleton.mp hs)
    exact hid
  | var i =>
    obtain ⟨-, rfl⟩ := Prod.mk.inj (List.mem_singleton.mp hs)
    exact hid
  | apply j args ih =>
    rcases mem_subterms_apply.mp hs with ⟨-, rfl⟩ | ⟨i, a, rest, hget, -, hmem⟩
    · exact hid
    · have ha := List.mem_of_getElem? hget
      exact List.mem_cons_of_mem j (mem_primitivesList.mpr ⟨a, ha, ih a ha hmem⟩)

/-! ## Nodes and depth -/

theorem nodes_of_isLeaf {e : Term} (h : e.isLeaf = true) : e.nodes = 1 := by
  cases e with
  | apply => cases h
  | _ => rfl

theorem depthList_le_iff {args : List Term} {n : Nat} :
    depthList args ≤ n ↔ ∀ a ∈ args, a.depth ≤ n := by
  induction args with
  | nil => simp [depthList]
  | cons e es ih => rw [depthList, Nat.max_le, ih, List.forall_mem_cons]

theorem depth_apply_le_iff {id : PrimId} {args : List Term} {n : Nat} :
    (Term.apply id args).depth ≤ n + 1 ↔ ∀ a ∈ args, a.depth ≤ n := by
  rw [depth, Nat.add_comm 1, Nat.add_le_add_iff_right, depthList_le_iff]

theorem depth_of_isLeaf {e : Term} (h : e.isLeaf = true) : e.depth = 0 := by
  cases e with
  | apply => simp [isLeaf] at h
  | _ => rfl

theorem isLeaf_of_depth {e : Term} (h : e.depth = 0) : e.isLeaf = true := by
  cases e with
  | apply id args =>
    rw [depth] at h
    omega
  | _ => rfl

/-! ## Weight -/

theorem weightList_eq_sum (cost : PrimId → Nat) (args : List Term) :
    weightList cost args = (args.map (weight cost)).sum := by
  induction args with
  | nil => rfl
  | cons e es ih => rw [weightList, ih, List.map_cons, List.sum_cons]

theorem weight_le_weightList (cost : PrimId → Nat) {args : List Term} {a : Term} (ha : a ∈ args) :
    a.weight cost ≤ weightList cost args := by
  induction args with
  | nil => cases ha
  | cons e es ih =>
    rw [weightList]
    rcases List.mem_cons.mp ha with rfl | ha
    · omega
    · have hrest := ih ha
      omega

theorem size_apply (t : Table) (id : PrimId) (args : List Term) :
    (Term.apply id args).size t = t.cost id + (args.map (Term.size t)).sum := by
  rw [size, weight, weightList_eq_sum]
  rfl

theorem size_of_isLeaf {e : Term} (h : e.isLeaf = true) (t : Table) : e.size t = 1 := by
  cases e with
  | apply => simp [isLeaf] at h
  | _ => rfl

end Term

end Exemplar
