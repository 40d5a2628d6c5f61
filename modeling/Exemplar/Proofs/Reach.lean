import Exemplar.Verification.Reach
import Mathlib.Data.Finset.Card
import Mathlib.Data.Finset.Range

/-!
# Closure of reachability

The positions that can be reached contain what the bodies at these positions name (`reach_closed`).
Every step of the search for them either finds a further primitive of the table or leaves a set that is
closed, and there are only so many primitives to find.
-/

namespace Exemplar.Table

variable {t : Table}

/-! ## Callees -/

theorem mem_callees {id j : PrimId} :
    j ∈ t.callees id ↔ ∃ p body, t.get? id = some p ∧ p.rule = .learned body ∧
      j ∈ body.primitives := by
  rw [callees]
  cases hget : t.get? id with
  | none => simp
  | some p => cases hrule : p.rule <;> simp [Primitive.body?, hrule]

theorem lt_size_of_mem_callees {id j : PrimId} (h : j ∈ t.callees id) : id < t.size := by
  obtain ⟨p, -, hget, -⟩ := mem_callees.mp h
  obtain ⟨hlt, -⟩ := Array.getElem?_eq_some_iff.mp hget
  exact hlt

/-! ## Closed lists of positions -/

/-- The bodies at some positions name nothing else. -/
def Closed (t : Table) (ids : List PrimId) : Prop := ∀ id ∈ ids, ∀ j ∈ t.callees id, j ∈ ids

theorem mem_grow {ids : List PrimId} {j : PrimId} :
    j ∈ t.grow ids ↔ j ∈ ids ∨ ∃ id ∈ ids, j ∈ t.callees id := by
  rw [grow, List.mem_eraseDups, List.mem_append, List.mem_flatMap]

theorem Closed.grow {ids : List PrimId} (h : t.Closed ids) : t.Closed (t.grow ids) := by
  have hgrow : ∀ id ∈ t.grow ids, id ∈ ids := by
    intro id hid
    rcases mem_grow.mp hid with hid | ⟨i, hi, hcall⟩
    · exact hid
    · exact h i hi id hcall
  intro id hid j hj
  exact mem_grow.mpr (.inl (h id (hgrow id hid) j hj))

theorem Closed.reachIn {ids : List PrimId} (h : t.Closed ids) (n : Nat) :
    t.Closed (t.reachIn n ids) := by
  induction n generalizing ids with
  | zero => exact h
  | succ n ih => exact ih h.grow

/-- Those of some positions at which there are primitives. -/
def known (t : Table) (ids : List PrimId) : Finset PrimId :=
  (Finset.range t.size).filter (· ∈ ids)

theorem mem_known {ids : List PrimId} {id : PrimId} : id ∈ t.known ids ↔ id < t.size ∧ id ∈ ids := by
  rw [known, Finset.mem_filter, Finset.mem_range]

theorem card_known_le (ids : List PrimId) : (t.known ids).card ≤ t.size := by
  have hle := Finset.card_filter_le (Finset.range t.size) (· ∈ ids)
  rwa [Finset.card_range] at hle

theorem known_mono {ids ids' : List PrimId} (h : ids ⊆ ids') : t.known ids ⊆ t.known ids' := by
  intro id hid
  obtain ⟨hlt, hmem⟩ := mem_known.mp hid
  exact mem_known.mpr ⟨hlt, h hmem⟩

theorem known_subset_grow (ids : List PrimId) : t.known ids ⊆ t.known (t.grow ids) :=
  known_mono fun _ hid => mem_grow.mpr (.inl hid)

theorem card_known_cons {ids : List PrimId} {id : PrimId} (hlt : id < t.size) (h : id ∉ ids) :
    (t.known (id :: ids)).card = (t.known ids).card + 1 := by
  have hinsert : t.known (id :: ids) = insert id (t.known ids) := by
    ext i
    simp only [mem_known, Finset.mem_insert, List.mem_cons]
    constructor
    · rintro ⟨hi, rfl | hmem⟩
      · exact .inl rfl
      · exact .inr ⟨hi, hmem⟩
    · rintro (rfl | ⟨hi, hmem⟩)
      · exact ⟨hlt, .inl rfl⟩
      · exact ⟨hi, .inr hmem⟩
  rw [hinsert, Finset.card_insert_of_notMem fun hknown => h (mem_known.mp hknown).2]

theorem closed_grow_of_known {ids : List PrimId} (h : t.known (t.grow ids) = t.known ids) :
    t.Closed (t.grow ids) := by
  intro id hid j hj
  have hknown : id ∈ t.known (t.grow ids) := mem_known.mpr ⟨lt_size_of_mem_callees hj, hid⟩
  rw [h] at hknown
  exact mem_grow.mpr (.inr ⟨id, (mem_known.mp hknown).2, hj⟩)

theorem closed_reachIn {n : Nat} {ids : List PrimId} (h : t.size < (t.known ids).card + n) :
    t.Closed (t.reachIn n ids) := by
  induction n generalizing ids with
  | zero =>
    have hle := t.card_known_le ids
    omega
  | succ n ih =>
    rw [reachIn]
    by_cases heq : t.known (t.grow ids) = t.known ids
    · exact (closed_grow_of_known heq).reachIn n
    · have hgrows : t.known ids ⊂ t.known (t.grow ids) :=
        (t.known_subset_grow ids).ssubset_of_ne (Ne.symm heq)
      have hcard := Finset.card_lt_card hgrows
      exact ih (by omega)

/-! ## Reachable positions -/

theorem subset_reachIn (n : Nat) {ids : List PrimId} {id : PrimId} (h : id ∈ ids) :
    id ∈ t.reachIn n ids := by
  induction n generalizing ids with
  | zero => exact h
  | succ n ih => exact ih (mem_grow.mpr (.inl h))

theorem subset_reach {ids : List PrimId} {id : PrimId} (h : id ∈ ids) : id ∈ t.reach ids :=
  subset_reachIn t.size h

theorem reach_closed (ids : List PrimId) : t.Closed (t.reach ids) := by
  by_cases hnone : t.known ids = ∅
  · -- without a primitive to start from there is nowhere to go
    have hclosed : t.Closed ids := by
      intro id hid j hj
      have hknown := mem_known.mpr ⟨lt_size_of_mem_callees hj, hid⟩
      rw [hnone] at hknown
      simp at hknown
    exact hclosed.reachIn t.size
  · have hpos := Finset.card_pos.mpr (Finset.nonempty_iff_ne_empty.mpr hnone)
    exact closed_reachIn (by omega)

end Exemplar.Table
