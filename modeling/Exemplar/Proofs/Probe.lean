import Exemplar.Probe
import Exemplar.Proofs.Agreement
import Mathlib.Algebra.GroupWithZero.Nat

/-!
# Probe tuples

A probe tuple has a value for every parameter (`length_of_mem_inputs`), and none of its values is a
function (`within_of_mem_inputs`). There are probe tuples unless a parameter is a function
(`inputs_eq_nil_iff`).
-/

namespace Exemplar.Probe

variable {params : List Ty} {limit : Nat} {row : List Value}

theorem length_tuple (pools : List (List Value)) (n : Nat) : (tuple pools n).length = pools.length := by
  induction pools generalizing n with
  | nil => rfl
  | cons vs pools ih => rw [tuple, List.length_cons, List.length_cons, ih]

theorem exists_tuple_of_mem_inputs (h : row ∈ inputs params limit) :
    ∃ n, row = tuple (params.map pool) n := by
  rw [inputs] at h
  split at h
  · rename_i hempty
    rw [List.isEmpty_iff.mp hempty]
    exact ⟨0, List.mem_singleton.mp h⟩
  · split at h
    · simp at h
    · obtain ⟨n, -, rfl⟩ := List.mem_map.mp h
      exact ⟨_, rfl⟩

theorem length_of_mem_inputs (h : row ∈ inputs params limit) : row.length = params.length := by
  obtain ⟨n, rfl⟩ := exists_tuple_of_mem_inputs h
  rw [length_tuple, List.length_map]

theorem within_of_mem_pool {S : PrimId → Prop} {ty : Ty} {v : Value} (h : v ∈ pool ty) :
    v.Within S := by
  cases ty with
  | int =>
    obtain ⟨n, -, rfl⟩ := List.mem_map.mp h
    exact Value.within_int n
  | bool =>
    rcases List.mem_pair.mp h with rfl | rfl
    · exact Value.within_bool false
    · exact Value.within_bool true
  | list =>
    obtain ⟨xs, -, rfl⟩ := List.mem_map.mp h
    exact Value.within_list xs
  | func => simp [pool] at h

theorem within_tuple {S : PrimId → Prop} (tys : List Ty) (n : Nat) :
    Value.AllWithin S (tuple (tys.map pool) n) := by
  induction tys generalizing n with
  | nil => exact Value.allWithin_nil
  | cons ty tys ih =>
    rw [List.map_cons, tuple, Value.allWithin_cons]
    refine ⟨?_, ih _⟩
    rw [List.getD_eq_getElem?_getD]
    cases hget : (pool ty)[n % (pool ty).length]? with
    | none => exact Value.within_int 0
    | some v => exact within_of_mem_pool (List.mem_of_getElem? hget)

theorem within_of_mem_inputs {S : PrimId → Prop} (h : row ∈ inputs params limit) :
    Value.AllWithin S row := by
  obtain ⟨n, rfl⟩ := exists_tuple_of_mem_inputs h
  exact within_tuple params n

/-! ## Parameters without probes -/

theorem pool_eq_nil_iff {ty : Ty} : pool ty = [] ↔ ty.firstOrder = false := by
  cases ty <;> simp [pool, Ty.firstOrder]

theorem count_eq (pools : List (List Value)) :
    count pools = min (pools.map List.length).prod maxCount := by
  rw [count, List.prod_eq_foldl, List.foldl_map]

theorem count_pos {pools : List (List Value)} (h : ∀ vs ∈ pools, vs ≠ []) : 0 < count pools := by
  have hlengths : ∀ n ∈ pools.map List.length, 0 < n := by
    intro n hn
    obtain ⟨vs, hvs, rfl⟩ := List.mem_map.mp hn
    exact List.length_pos_iff.mpr (h vs hvs)
  have hmax : 0 < maxCount := by decide
  rw [count_eq]
  exact Nat.lt_min.mpr ⟨List.prod_pos_iff_forall_pos_nat.mpr hlengths, hmax⟩

theorem inputs_eq_nil_iff (hlimit : 1 ≤ limit) :
    inputs params limit = [] ↔ ∃ ty ∈ params, ty.firstOrder = false := by
  have hany : (params.map pool).any List.isEmpty = true ↔ ∃ ty ∈ params, ty.firstOrder = false := by
    simp [pool_eq_nil_iff]
  rw [inputs]
  by_cases hempty : params.isEmpty = true
  · rw [if_pos hempty, List.isEmpty_iff.mp hempty]
    simp
  · rw [if_neg hempty]
    by_cases hpools : (params.map pool).any List.isEmpty = true
    · rw [if_pos (by rw [hpools, Bool.or_true])]
      exact iff_of_true rfl (hany.mp hpools)
    · have hne : ∀ vs ∈ params.map pool, vs ≠ [] := by
        intro vs hvs hnil
        exact hpools (List.any_eq_true.mpr ⟨vs, hvs, List.isEmpty_iff.mpr hnil⟩)
      have htotal : 0 < count (params.map pool) := count_pos hne
      have hlimit' : limit ≠ 0 := by omega
      rw [if_neg (by simpa [hlimit'] using hpools)]
      refine iff_of_false ?_ (mt hany.mpr hpools)
      rw [List.map_eq_nil_iff, List.range_eq_nil]
      omega

end Exemplar.Probe
