import Exemplar.Proofs.Probe
import Mathlib.Data.Nat.Find

/-!
# Which parameters vary in a sample

Of too many combinations a sample is taken in equal steps: the `n`-th tuple is the combination of the number
`n * stride`, read in the mixed base of the pools' sizes. **A parameter varies in the sample exactly if the
steps, taken modulo the combinations of the parameters up to this one, add up to as many as those of the
parameters before it** (`varies_iff`). A stride that is a multiple of the former never moves its digit.

So a fixed stride does not let every parameter vary. Of two booleans with limit two the first is always
false, and with the standard limit so is the first of a boolean, two integers and a boolean
(`inputs_frozen`).
-/

namespace Exemplar.Probe

variable {params : List Ty} {limit : Nat}

/-! ## Steps -/

/-- The number of combinations of the first parameters. -/
def span (params : List Ty) (i : Nat) : Nat :=
  ((params.take i).map fun ty => (pool ty).length).prod

/-- How far apart the combinations of a sample are. -/
def stride (params : List Ty) (limit : Nat) : Nat :=
  if count (params.map pool) ≤ limit then 1 else count (params.map pool) / limit

def number (params : List Ty) (limit : Nat) : Nat := min (count (params.map pool)) limit

theorem inputs_eq_map (hne : params ≠ []) (hplain : ∀ ty ∈ params, ty.firstOrder = true) :
    inputs params limit =
      (List.range (number params limit)).map
        (fun n => tuple (params.map pool) (n * stride params limit)) := by
  have hempty : ¬ params.isEmpty = true := by simpa using hne
  have hpools : (params.map pool).any List.isEmpty = false := by
    rw [List.any_eq_false]
    intro vs hvs
    obtain ⟨ty, hty, rfl⟩ := List.mem_map.mp hvs
    rw [List.isEmpty_iff, pool_eq_nil_iff, hplain ty hty]
    decide
  rw [inputs, if_neg hempty, hpools, Bool.or_false]
  by_cases hlimit : limit = 0
  · simp [hlimit, number]
  · rw [if_neg (by simpa using hlimit)]
    rfl

/-! ## Digits -/

theorem getElem?_tuple (pools : List (List Value)) (n i : Nat) :
    (tuple pools n)[i]? = pools[i]?.map fun vs =>
      vs.getD (n / ((pools.take i).map List.length).prod % vs.length) (.int 0) := by
  induction pools generalizing n i with
  | nil => rfl
  | cons vs pools ih =>
    cases i with
    | zero => simp [tuple]
    | succ i =>
      rw [tuple, List.getElem?_cons_succ, List.getElem?_cons_succ, ih]
      simp only [List.take_succ_cons, List.map_cons, List.prod_cons, Nat.div_div_eq_div_mul]

/-- **A digit moves** along a number of equal steps if the steps, taken modulo the period of the digit, add
up to its weight. Steps that are smaller than the weight cannot jump over the half of the period, and more,
where the digit is not zero. -/
theorem exists_digit_ne_zero_iff {weight radix step number : Nat} (hweight : 0 < weight)
    (hradix : 2 ≤ radix) :
    (∃ n < number, n * step / weight % radix ≠ 0) ↔
      weight ≤ (number - 1) * (step % (weight * radix)) := by
  have hpositive : 0 < weight * radix := Nat.mul_pos hweight (by omega)
  have hrest : step % (weight * radix) < weight * radix := Nat.mod_lt _ hpositive
  have hdigit : ∀ n, n * step / weight % radix ≠ 0 ↔
      weight ≤ n * (step % (weight * radix)) % (weight * radix) := by
    intro n
    rw [← Nat.mod_mul_right_div_self, Nat.mul_mod_mod, Nat.div_ne_zero_iff]
    exact and_iff_right (Nat.ne_of_gt hweight)
  simp only [hdigit]
  generalize step % (weight * radix) = rest at hrest
  constructor
  · rintro ⟨n, hn, hle⟩
    calc weight ≤ n * rest % (weight * radix) := hle
      _ ≤ n * rest := Nat.mod_le _ _
      _ ≤ (number - 1) * rest := Nat.mul_le_mul_right rest (by omega)
  · intro hreach
    -- the first step that reaches the weight
    have hexists : ∃ n, weight ≤ n * rest := ⟨_, hreach⟩
    obtain ⟨n, hn, hfirst⟩ : ∃ n, weight ≤ (n + 1) * rest ∧ n * rest < weight := by
      cases hfind : Nat.find hexists with
      | zero =>
        have hzero := Nat.find_spec hexists
        rw [hfind, Nat.zero_mul] at hzero
        omega
      | succ n =>
        have hbefore := Nat.find_min hexists (m := n) (by omega)
        exact ⟨n, hfind ▸ Nat.find_spec hexists, Nat.not_le.mp hbefore⟩
    have hnumber : n + 1 < number := by
      by_contra hlate
      have hle := Nat.mul_le_mul_right rest (show number - 1 ≤ n by omega)
      omega
    have hsmall : (n + 1) * rest < weight * radix := by
      -- a step of at least the weight is the first one; a smaller one leads to less than two weights
      rw [Nat.succ_mul]
      by_cases hrest' : weight ≤ rest
      · have hzero : n = 0 := by
          by_contra hne
          have hle := Nat.mul_le_mul_right rest (Nat.one_le_iff_ne_zero.mpr hne)
          omega
        rw [hzero, Nat.zero_mul, Nat.zero_add]
        exact hrest
      · have htwice := Nat.mul_le_mul_left weight hradix
        omega
    exact ⟨n + 1, hnumber, by rwa [Nat.mod_eq_of_lt hsmall]⟩

/-! ## Parameters -/

theorem nodup_pool (ty : Ty) : (pool ty).Nodup := by
  cases ty with
  | func => exact List.nodup_nil
  | _ => decide

theorem two_le_length_pool {ty : Ty} (h : ty.firstOrder = true) : 2 ≤ (pool ty).length := by
  cases ty with
  | func => cases h
  | _ => decide

theorem span_pos (hplain : ∀ ty ∈ params, ty.firstOrder = true) (i : Nat) : 0 < span params i := by
  refine List.prod_pos_iff_forall_pos_nat.mpr fun n hn => ?_
  obtain ⟨ty, hty, rfl⟩ := List.mem_map.mp hn
  have htwo := two_le_length_pool (hplain ty (List.mem_of_mem_take hty))
  omega

theorem span_succ {i : Nat} {ty : Ty} (hi : params[i]? = some ty) :
    span params (i + 1) = span params i * (pool ty).length := by
  rw [span, List.take_add_one, hi, List.map_append, List.prod_append]
  simp [span]

/-- **A parameter varies in a sample** exactly if the steps, modulo the combinations of the parameters up to
this one, add up to as many as those of the parameters before it. -/
theorem varies_iff (hplain : ∀ ty ∈ params, ty.firstOrder = true) (limit : Nat) {i : Nat}
    (hi : i < params.length) :
    (∃ row ∈ inputs params limit, ∃ row' ∈ inputs params limit, row[i]? ≠ row'[i]?) ↔
      span params i ≤ (number params limit - 1) * (stride params limit % span params (i + 1)) := by
  have hne : params ≠ [] := List.ne_nil_of_length_pos (by omega)
  have hget : params[i]? = some params[i] := List.getElem?_eq_getElem hi
  have htwo := two_le_length_pool (hplain _ (List.getElem_mem hi))
  have hspan : (((params.map pool).take i).map List.length).prod = span params i := by
    rw [span, ← List.map_take, List.map_map]
    rfl
  have hvalue : ∀ n, (tuple (params.map pool) (n * stride params limit))[i]? =
      some ((pool params[i]).getD
        (n * stride params limit / span params i % (pool params[i]).length) (.int 0)) := by
    intro n
    rw [getElem?_tuple, List.getElem?_map, hget, hspan]
    rfl
  rw [span_succ hget, ← exists_digit_ne_zero_iff (span_pos hplain i) htwo, inputs_eq_map hne hplain]
  constructor
  · -- of two tuples that differ, one has a digit that is not zero
    rintro ⟨_, hrow, _, hrow', hdiff⟩
    obtain ⟨n, hn, rfl⟩ := List.mem_map.mp hrow
    obtain ⟨n', hn', rfl⟩ := List.mem_map.mp hrow'
    rw [hvalue, hvalue] at hdiff
    by_contra hzero
    push Not at hzero
    rw [hzero n (List.mem_range.mp hn), hzero n' (List.mem_range.mp hn')] at hdiff
    exact hdiff rfl
  · -- the first tuple has digit zero, and no value stands twice in a pool
    rintro ⟨n, hn, hdigit⟩
    refine ⟨_, List.mem_map.mpr ⟨0, List.mem_range.mpr (by omega), rfl⟩,
      _, List.mem_map.mpr ⟨n, List.mem_range.mpr hn, rfl⟩, ?_⟩
    have hlt : n * stride params limit / span params i % (pool params[i]).length <
        (pool params[i]).length := Nat.mod_lt _ (by omega)
    have hzero : 0 < (pool params[i]).length := by omega
    rw [hvalue, hvalue, Nat.zero_mul, Nat.zero_div, Nat.zero_mod, List.getD_eq_getElem?_getD,
      List.getD_eq_getElem?_getD, List.getElem?_eq_getElem hzero, List.getElem?_eq_getElem hlt]
    intro hsame
    have hindex := (nodup_pool params[i]).getElem_inj_iff.mp (Option.some.inj hsame)
    exact hdigit hindex.symm

/-- With the standard limit, the first of a boolean, two integers and a boolean does not vary, and the
second does. -/
theorem varies_iff_mixed :
    let params : List Ty := [.bool, .int, .int, .bool]
    (∀ ty ∈ params, ty.firstOrder = true) ∧ 1 < params.length ∧
    ¬ (∃ row ∈ inputs params 64, ∃ row' ∈ inputs params 64, row[0]? ≠ row'[0]?) ∧
    ∃ row ∈ inputs params 64, ∃ row' ∈ inputs params 64, row[1]? ≠ row'[1]? := by
  intro params
  have hplain : ∀ ty ∈ params, ty.firstOrder = true := by decide
  have hlength : 1 < params.length := by decide
  refine ⟨hplain, hlength, fun hvaries => ?_, (varies_iff hplain 64 hlength).mpr (by decide)⟩
  have hreach := (varies_iff hplain 64 (Nat.zero_lt_of_lt hlength)).mp hvaries
  exact absurd hreach (by decide)

/-- There are four pairs of booleans and four hundred tuples of a boolean, two integers and a boolean; in
samples of two and of sixty-four of them, the first member is always false. -/
theorem inputs_frozen :
    (2 ≤ 2 ∧ 2 < ([Ty.bool, .bool].map fun ty => (pool ty).length).prod ∧
      inputs [.bool, .bool] 2 = [[.bool false, .bool false], [.bool false, .bool true]]) ∧
    (64 < ([Ty.bool, .int, .int, .bool].map fun ty => (pool ty).length).prod ∧
      ∀ row ∈ inputs [.bool, .int, .int, .bool] 64, row[0]? = some (.bool false)) := by
  decide +kernel

end Exemplar.Probe
