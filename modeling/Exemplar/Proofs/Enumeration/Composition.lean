import Exemplar.Enumeration.Search
import Mathlib.Algebra.BigOperators.Group.List.Basic
import Mathlib.Algebra.GroupWithZero.Nat

/-!
# Which compositions there are

`compositions parts total` lists exactly the lists of `parts` positive numbers with sum `total`
(`mem_compositions`), in lexicographic order (`compositions_sorted`).
-/

namespace Exemplar.Enumeration

theorem mem_compositions {parts total : Nat} {split : List Nat} :
    split ∈ compositions parts total ↔
      split.length = parts ∧ (∀ n ∈ split, 1 ≤ n) ∧ split.sum = total := by
  fun_induction compositions parts total generalizing split with
  | case1 =>
    constructor
    · intro h
      obtain rfl := List.mem_singleton.mp h
      simp
    · rintro ⟨hlength, -, -⟩
      simp [List.length_eq_zero_iff.mp hlength]
  | case2 total =>
    constructor
    · intro h
      cases h
    · rintro ⟨hlength, -, hsum⟩
      simp [List.length_eq_zero_iff.mp hlength] at hsum
  | case3 =>
    constructor
    · intro h
      cases h
    · rintro ⟨hlength, hpos, hsum⟩
      obtain ⟨n, rfl⟩ := List.length_eq_one_iff.mp hlength
      simp only [List.mem_singleton, forall_eq, List.sum_cons, List.sum_nil] at hpos hsum
      omega
  | case4 total =>
    constructor
    · intro h
      obtain rfl := List.mem_singleton.mp h
      simp
    · rintro ⟨hlength, -, hsum⟩
      obtain ⟨n, rfl⟩ := List.length_eq_one_iff.mp hlength
      simpa using hsum
  | case5 parts total ih =>
    simp only [List.mem_flatMap, List.mem_range, List.mem_map]
    constructor
    · rintro ⟨i, hi, rest, hrest, rfl⟩
      obtain ⟨hlength, hpos, hsum⟩ := (ih i).mp hrest
      refine ⟨by simp [hlength], ?_, ?_⟩
      · exact List.forall_mem_cons.mpr ⟨by omega, hpos⟩
      · rw [List.sum_cons, hsum]
        omega
    · rintro ⟨hlength, hpos, hsum⟩
      cases split with
      | nil => simp at hlength
      | cons first rest =>
        obtain ⟨hfirst, hothers⟩ := List.forall_mem_cons.mp hpos
        rw [List.length_cons] at hlength
        rw [List.sum_cons] at hsum
        -- the other parts take at least one each, so the first part is in range
        have hrest := List.length_le_sum_of_one_le rest hothers
        obtain ⟨i, rfl⟩ := Nat.exists_eq_add_of_le' hfirst
        exact ⟨i, by omega, rest, (ih i).mpr ⟨by omega, hothers, by omega⟩, rfl⟩

theorem compositions_sorted (parts total : Nat) :
    (compositions parts total).Pairwise (List.Lex (· < ·)) := by
  fun_induction compositions parts total with
  | case1 => exact List.pairwise_singleton _ _
  | case2 total => exact .nil
  | case3 => exact .nil
  | case4 total => exact List.pairwise_singleton _ _
  | case5 parts total ih =>
    rw [List.pairwise_flatMap]
    refine ⟨fun i _ => ?_, List.pairwise_lt_range.imp ?_⟩
    · rw [List.pairwise_map]
      exact (ih i).imp .cons
    · intro i j hij split hsplit split' hsplit'
      obtain ⟨rest, -, rfl⟩ := List.mem_map.mp hsplit
      obtain ⟨rest', -, rfl⟩ := List.mem_map.mp hsplit'
      exact .rel (Nat.succ_lt_succ hij)

end Exemplar.Enumeration
