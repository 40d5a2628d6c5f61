import Exemplar.Proofs.Probe.Sample
import Mathlib.Data.List.GetD

/-!
# Probe tuples are exact

**There are as many probe tuples as combinations, or as the limit allows; each is a combination of the
pools, none stands twice, and below the limit none is missing** (`inputs_exact`).

A tuple is the combination of a number in the mixed base of the pools' sizes. The way back is its `rank`:
each number below the number of combinations is the rank of its tuple (`rank_tuple`), and each combination
is the tuple of its rank (`tuple_rank`). The steps of a sample stay below the number of combinations
(`index_lt`), also where that number is more than is counted.
-/

namespace Exemplar.Probe

variable {pools : List (List Value)} {params : List Ty} {row : List Value} {limit : Nat}

/-! ## Ranks -/

/-- The number whose combination a row is: the places of its values in their pools are the digits. -/
def rank : List (List Value) → List Value → Nat
  | vs :: pools, v :: row => vs.idxOf v + vs.length * rank pools row
  | _, _ => 0

theorem rank_lt (h : List.Forall₂ (fun v vs => v ∈ vs) row pools) :
    rank pools row < (pools.map List.length).prod := by
  induction h with
  | nil => exact Nat.one_pos
  | @cons v vs row pools hv _ ih =>
    have hdigit : vs.idxOf v < vs.length := List.idxOf_lt_length_of_mem hv
    rw [rank, List.map_cons, List.prod_cons]
    calc vs.idxOf v + vs.length * rank pools row
      _ < vs.length + vs.length * rank pools row := Nat.add_lt_add_right hdigit _
      _ = vs.length * (rank pools row + 1) := by rw [Nat.mul_succ, Nat.add_comm]
      _ ≤ vs.length * (pools.map List.length).prod := Nat.mul_le_mul_left _ ih

theorem tuple_rank (h : List.Forall₂ (fun v vs => v ∈ vs) row pools) :
    tuple pools (rank pools row) = row := by
  induction h with
  | nil => rfl
  | @cons v vs row pools hv _ ih =>
    have hdigit : vs.idxOf v < vs.length := List.idxOf_lt_length_of_mem hv
    have hpositive : 0 < vs.length := by omega
    rw [rank, tuple, Nat.add_mul_mod_self_left, Nat.mod_eq_of_lt hdigit, Nat.add_mul_div_left _ _ hpositive,
      Nat.div_eq_of_lt hdigit, Nat.zero_add, ih, List.getD_eq_getElem _ _ hdigit, List.getElem_idxOf]

theorem rank_tuple (hnodup : ∀ vs ∈ pools, vs.Nodup) {n : Nat}
    (hn : n < (pools.map List.length).prod) : rank pools (tuple pools n) = n := by
  induction pools generalizing n with
  | nil =>
    rw [List.map_nil, List.prod_nil, Nat.lt_one_iff] at hn
    rw [hn]
    rfl
  | cons vs pools ih =>
    obtain ⟨hhead, htail⟩ := List.forall_mem_cons.mp hnodup
    rw [List.map_cons, List.prod_cons] at hn
    have hpositive : 0 < vs.length := Nat.pos_of_mul_pos_right (Nat.zero_lt_of_lt hn)
    have hdigit : n % vs.length < vs.length := Nat.mod_lt n hpositive
    rw [tuple, rank, ih htail (Nat.div_lt_of_lt_mul hn), List.getD_eq_getElem _ _ hdigit,
      hhead.idxOf_getElem, Nat.mod_add_div]

theorem forall₂_tuple (hne : ∀ vs ∈ pools, vs ≠ []) (n : Nat) :
    List.Forall₂ (fun v vs => v ∈ vs) (tuple pools n) pools := by
  induction pools generalizing n with
  | nil => exact .nil
  | cons vs pools ih =>
    obtain ⟨hhead, htail⟩ := List.forall_mem_cons.mp hne
    have hdigit : n % vs.length < vs.length := Nat.mod_lt n (List.length_pos_iff.mpr hhead)
    rw [tuple, List.getD_eq_getElem _ _ hdigit]
    exact .cons (List.getElem_mem hdigit) (ih htail _)

/-! ## Samples -/

theorem inputs_eq_sample (hplain : ∀ ty ∈ params, ty.firstOrder = true) (hlimit : 1 ≤ limit) :
    inputs params limit =
      (List.range (number params limit)).map
        (fun n => tuple (params.map pool) (n * stride params limit)) := by
  cases params with
  | nil =>
    -- the one combination of no pools is the empty tuple
    have hnumber : number [] limit = 1 := Nat.min_eq_left hlimit
    rw [hnumber]
    rfl
  | cons ty params => exact inputs_eq_map (List.cons_ne_nil ty params) hplain

theorem stride_pos (params : List Ty) (hlimit : 1 ≤ limit) : 0 < stride params limit := by
  rw [stride]
  split
  · exact Nat.one_pos
  · exact Nat.div_pos (by omega) hlimit

theorem index_lt (hlimit : 1 ≤ limit) {n : Nat} (hn : n < number params limit) :
    n * stride params limit < count (params.map pool) := by
  have hpositive := stride_pos params hlimit
  rw [number, Nat.lt_min] at hn
  rw [stride] at hpositive ⊢
  split at hpositive
  · rename_i hfits
    rw [if_pos hfits, Nat.mul_one]
    exact hn.1
  · rename_i hover
    rw [if_neg hover]
    calc n * (count (params.map pool) / limit)
      _ < limit * (count (params.map pool) / limit) := Nat.mul_lt_mul_of_pos_right hn.2 hpositive
      _ ≤ count (params.map pool) := Nat.mul_div_le _ _

/-- **Probe tuples are exact.** For a limit that can be counted to, there are as many as there are
combinations, but at most the limit; all of them are combinations of the parameters' pools; no two are the
same; and if the limit allows all combinations, each of them stands once. -/
theorem inputs_exact (hplain : ∀ ty ∈ params, ty.firstOrder = true) (hlimit : 1 ≤ limit)
    (hmax : limit ≤ maxCount) :
    let total := (params.map fun ty => (pool ty).length).prod
    (inputs params limit).length = min total limit ∧
    (∀ row ∈ inputs params limit, List.Forall₂ (fun v ty => v ∈ pool ty) row params) ∧
    (inputs params limit).Nodup ∧
    (total ≤ limit → ∀ row, List.Forall₂ (fun v ty => v ∈ pool ty) row params →
      (inputs params limit).count row = 1) := by
  intro total
  have htotal : ((params.map pool).map List.length).prod = total := by
    rw [List.map_map]
    rfl
  have hcount : count (params.map pool) = min total maxCount := by rw [count_eq, htotal]
  have hne : ∀ vs ∈ params.map pool, vs ≠ [] := by
    refine List.forall_mem_map.mpr fun ty hty => ?_
    exact List.ne_nil_of_length_pos (Nat.zero_lt_of_lt (two_le_length_pool (hplain ty hty)))
  have hrank : ∀ n < number params limit,
      rank (params.map pool) (tuple (params.map pool) (n * stride params limit)) =
        n * stride params limit := by
    intro n hn
    have hlt := index_lt hlimit hn
    exact rank_tuple (List.forall_mem_map.mpr fun ty _ => nodup_pool ty) (by omega)
  have hdistinct : (inputs params limit).Nodup := by
    rw [inputs_eq_sample hplain hlimit]
    refine List.nodup_range.map_on fun n hn n' hn' heq => ?_
    have hindex := congrArg (rank (params.map pool)) heq
    rw [hrank n (List.mem_range.mp hn), hrank n' (List.mem_range.mp hn')] at hindex
    exact Nat.eq_of_mul_eq_mul_right (stride_pos params hlimit) hindex
  refine ⟨?_, fun row hrow => ?_, hdistinct, fun hfits row hrow => ?_⟩
  · rw [inputs_eq_sample hplain hlimit, List.length_map, List.length_range, number]
    omega
  · obtain ⟨n, rfl⟩ := exists_tuple_of_mem_inputs hrow
    exact List.forall₂_map_right_iff.mp (forall₂_tuple hne n)
  · -- without steps, the number of a tuple is its rank
    have hrow' := List.forall₂_map_right_iff.mpr hrow
    have hlt := rank_lt hrow'
    have hstride : stride params limit = 1 := if_pos (by omega)
    refine List.count_eq_one_of_mem hdistinct ?_
    rw [inputs_eq_sample hplain hlimit, List.mem_map]
    refine ⟨rank (params.map pool) row, List.mem_range.mpr ?_, ?_⟩
    · rw [number]
      omega
    · rw [hstride, Nat.mul_one, tuple_rank hrow']

/-- Sixty-four of more combinations of twenty integers than are counted, and all combinations of a boolean
and a list. -/
theorem inputs_exact_uncounted :
    let params := List.replicate 20 Ty.int
    (∀ ty ∈ params, ty.firstOrder = true) ∧ 1 ≤ 64 ∧ 64 ≤ maxCount ∧
    maxCount < (params.map fun ty => (pool ty).length).prod ∧
    (inputs params 64).length = 64 ∧ (inputs params 64).Nodup ∧
    (inputs [.bool, .list] 10).length = 10 ∧
    (inputs [.bool, .list] 10).count [.bool true, .list [0, 1, 2]] = 1 := by
  intro params
  have hplain : ∀ ty ∈ params, ty.firstOrder = true := by decide
  have hplain' : ∀ ty ∈ [Ty.bool, .list], ty.firstOrder = true := by decide
  have hlarge : maxCount < (params.map fun ty => (pool ty).length).prod := by decide
  have hmax : 64 ≤ maxCount := by decide
  have hmax' : 10 ≤ maxCount := by decide
  obtain ⟨hlength, -, hdistinct, -⟩ := inputs_exact hplain (by decide) hmax
  obtain ⟨hall, -, -, honce⟩ := inputs_exact hplain' (by decide) hmax'
  exact ⟨hplain, by decide, hmax, hlarge, hlength.trans (by decide), hdistinct,
    hall.trans (by decide), honce (by decide) _ (by decide)⟩

end Exemplar.Probe
