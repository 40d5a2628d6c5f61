import Exemplar.Proofs.Catalog
import Mathlib.Data.List.Nodup
import Mathlib.Data.List.Perm.Subperm
import Mathlib.Data.PFun
import Std.Data.String.ToNat

/-!
# Names of capabilities

**The name that a catalog proposes for a capability is free** (`find?_freeName`), whatever names its
primitives have.

The search for it tries one number after the other and gives up after as many as there are primitives.
If the name with which it gives up were taken, then so were all that it tried before. These are one more
than there are primitives, and no two of them are equal.

So the search need not give up at all: **without a bound it ends as well, with the same name, after at most
one lookup more than there are primitives** (`search_freeName`).
-/

namespace Exemplar.Catalog

variable {c : Catalog}

theorem capabilityName_injective : Function.Injective capabilityName := by
  intro m n h
  exact Nat.repr_inj.mp ((String.append_right_inj _).mp h)

theorem mem_names_of_freeNameFrom {tries n : Nat} (h : c.freeNameFrom tries n ∈ c.names) :
    ∀ k ≤ tries, capabilityName (n + k) ∈ c.names := by
  induction tries generalizing n with
  | zero =>
    intro k hk
    obtain rfl : k = 0 := by omega
    exact h
  | succ tries ih =>
    rw [freeNameFrom] at h
    by_cases hfree : c.table.find? (capabilityName n) = none
    · rw [hfree] at h
      exact absurd h (find?_eq_none_iff.mp hfree)
    · have hsome : (c.table.find? (capabilityName n)).isSome = true := Option.isSome_iff_ne_none.mpr hfree
      rw [if_pos hsome] at h
      intro k hk
      cases k with
      | zero => exact not_not.mp (mt find?_eq_none_iff.mpr hfree)
      | succ k =>
        have hnext := ih h k (by omega)
        rwa [show n + 1 + k = n + (k + 1) by omega] at hnext

theorem find?_freeName (c : Catalog) : c.table.find? c.freeName = none := by
  rw [find?_eq_none_iff]
  intro htaken
  have htried := mem_names_of_freeNameFrom htaken
  generalize c.learned.length + 1 = n at htried
  have hnodup : ((List.range (c.size + 1)).map fun k => capabilityName (n + k)).Nodup :=
    List.nodup_range.map fun j k h => by
      have hsum : n + j = n + k := capabilityName_injective h
      omega
  have hsubset : ((List.range (c.size + 1)).map fun k => capabilityName (n + k)) ⊆ c.names := by
    intro name hname
    obtain ⟨k, hk, rfl⟩ := List.mem_map.mp hname
    exact htried k (Nat.le_of_lt_succ (List.mem_range.mp hk))
  have hlength := (List.subperm_of_subset hnodup hsubset).length_le
  have hnames : c.names.length = c.size := by simp [names, Table.toList, size, Table.size]
  rw [List.length_map, List.length_range, hnames] at hlength
  omega

theorem register_freeName_eq_error {signature : Signature} {body : Term} {cost : Nat} {e : Error} :
    c.register c.freeName signature body cost = .error e ↔ c.Mistyped c.freeName signature body e := by
  rw [register_eq_error, find?_freeName]
  simp

/-! ## The search without a bound -/

/-- One turn of the search, with how many names were looked up before. The name of the number is looked up:
it is the result if it is free, and if not, the next number follows. -/
def turn (c : Catalog) : Nat × Nat → (String × Nat) ⊕ (Nat × Nat)
  | (n, lookups) =>
    if (c.table.find? (capabilityName n)).isSome then .inr (n + 1, lookups + 1)
    else .inl (capabilityName n, lookups + 1)

/-- Turn after turn until a name is free. Beside the name stands how many names were looked up. A search
that never ends has no result. -/
def search (c : Catalog) : Nat × Nat →. String × Nat := PFun.fix fun s => Part.some (c.turn s)

theorem search_of_free {n : Nat} (h : c.table.find? (capabilityName n) = none) (lookups : Nat) :
    c.search (n, lookups) = Part.some (capabilityName n, lookups + 1) := by
  refine Part.eq_some_iff.mpr (PFun.fix_stop (Part.mem_some_iff.mpr ?_))
  rw [turn, h]
  rfl

theorem search_of_taken {n : Nat} (h : (c.table.find? (capabilityName n)).isSome = true)
    (lookups : Nat) : c.search (n, lookups) = c.search (n + 1, lookups + 1) := by
  refine PFun.fix_fwd_eq (Part.mem_some_iff.mpr ?_)
  rw [turn, if_pos h]

theorem search_eq_freeNameFrom {tries n : Nat} (h : c.table.find? (c.freeNameFrom tries n) = none)
    (lookups : Nat) :
    ∃ k ≤ tries, c.search (n, lookups) = Part.some (c.freeNameFrom tries n, lookups + k + 1) := by
  induction tries generalizing n lookups with
  | zero => exact ⟨0, Nat.le_refl 0, search_of_free h lookups⟩
  | succ tries ih =>
    rw [freeNameFrom] at h ⊢
    cases htaken : (c.table.find? (capabilityName n)).isSome with
    | false =>
      have hfree := Option.isSome_eq_false_iff.mp htaken
      exact ⟨0, Nat.zero_le _, search_of_free (Option.isNone_iff_eq_none.mp hfree) lookups⟩
    | true =>
      rw [if_pos htaken] at h
      obtain ⟨k, hk, hsearch⟩ := ih h (lookups + 1)
      refine ⟨k + 1, Nat.succ_le_succ hk, ?_⟩
      rw [search_of_taken htaken, hsearch, if_pos rfl]
      congr 2
      omega

theorem search_freeName (c : Catalog) :
    ∃ lookups ≤ c.size + 1, c.search (c.learned.length + 1, 0) = Part.some (c.freeName, lookups) := by
  obtain ⟨k, hk, hsearch⟩ := search_eq_freeNameFrom c.find?_freeName 0
  rw [Nat.zero_add] at hsearch
  exact ⟨k + 1, Nat.succ_le_succ hk, hsearch⟩

end Exemplar.Catalog
