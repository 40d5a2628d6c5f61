import Exemplar.Random.Source
import Mathlib.Algebra.GroupWithZero.Nat

/-!
# What random choices ensure

`d.Ensures P`: the result of the draw `d` has the property `P`, whatever words the source hands out. It
passes through binds (`Draw.Ensures.bind`).

Of the choices themselves it is used that a number stays below its bound (`below32_ensures`,
`below64_ensures`), that a member is chosen from every list that has one (`choose_ensures`), and that a
shuffle keeps the members (`shuffle_ensures`).
-/

namespace Exemplar

def Draw.Ensures {σ α : Type} (d : Draw σ α) (P : α → Prop) : Prop := ∀ s, P (d.run s).1

namespace Draw.Ensures

variable {σ α β : Type} {P P' : α → Prop} {Q : β → Prop} {d : Draw σ α}

theorem pure {a : α} (h : P a) : (Pure.pure a : Draw σ α).Ensures P := fun _ => h

theorem bind (hd : d.Ensures P) {f : α → Draw σ β} (hf : ∀ a, P a → (f a).Ensures Q) :
    (d >>= f).Ensures Q := fun s => hf _ (hd s) _

theorem imp (hd : d.Ensures P) (h : ∀ a, P a → P' a) : d.Ensures P' := fun s => h _ (hd s)

theorem true (d : Draw σ α) : d.Ensures fun _ => True := fun _ => trivial

end Draw.Ensures

namespace Random

variable {σ α : Type}

/-! ## Numbers -/

theorem scale_lt {width n word : Nat} (hn : 0 < n) (hword : word < 2 ^ width) :
    scale width n word < n := by
  rw [scale, Nat.shiftRight_eq_div_pow, Nat.div_lt_iff_lt_mul (Nat.two_pow_pos width), Nat.mul_comm]
  exact Nat.mul_lt_mul_of_pos_left hword hn

theorem belowWith_ensures {width n : Nat} (hn : 0 < n) {word : Draw σ Nat}
    (hword : word.Ensures (· < 2 ^ width)) (refusals : Nat) :
    (belowWith width n word refusals).Ensures (· < n) := by
  induction refusals with
  | zero => exact hword.bind fun w hw => .pure (scale_lt hn hw)
  | succ refusals ih =>
    refine hword.bind fun w hw => ?_
    split
    · exact .pure (scale_lt hn hw)
    · exact ih

variable [RandomSource σ]

theorem word32_ensures : (word32 : Draw σ Nat).Ensures (· < 2 ^ 32) := fun _ => UInt32.toNat_lt _

theorem word64_ensures : (word64 : Draw σ Nat).Ensures (· < 2 ^ 64) := fun _ => UInt64.toNat_lt _

theorem below32_ensures {n : Nat} (hn : 0 < n) : (below32 n : Draw σ Nat).Ensures (· < n) :=
  belowWith_ensures hn word32_ensures maxRefusals

theorem below64_ensures {n : Nat} (hn : 0 < n) : (below64 n : Draw σ Nat).Ensures (· < n) :=
  belowWith_ensures hn word64_ensures maxRefusals

/-! ## Members and orders -/

theorem choose_ensures (xs : List α) :
    (choose xs : Draw σ (Option α)).Ensures fun r => (r = none ↔ xs = []) ∧ ∀ a ∈ r, a ∈ xs := by
  rw [choose]
  split
  · rename_i hempty
    exact .pure ⟨by simpa using hempty, nofun⟩
  · rename_i hempty
    have hne : xs ≠ [] := by simpa using hempty
    refine (below32_ensures (List.length_pos_iff.mpr hne)).bind fun i hi => .pure ⟨?_, ?_⟩
    · simpa [hne] using hi
    · exact fun a ha => List.mem_of_getElem? ha

theorem swapIfInBounds_perm (xs : Array α) (i j : Nat) : (xs.swapIfInBounds i j).Perm xs := by
  rw [Array.swapIfInBounds_def]
  split
  · split
    · exact Array.swap_perm _ _
    · exact .refl xs
  · exact .refl xs

theorem shuffleFrom_ensures (i : Nat) (xs : Array α) :
    (shuffleFrom i xs : Draw σ (Array α)).Ensures (·.Perm xs) := by
  induction i generalizing xs with
  | zero => exact .pure (.refl xs)
  | succ i ih =>
    refine (Draw.Ensures.true _).bind fun j _ => (ih _).imp fun ys hys => ?_
    exact hys.trans (swapIfInBounds_perm xs (i + 1) j)

theorem shuffle_ensures (xs : List α) : (shuffle xs : Draw σ (List α)).Ensures (·.Perm xs) :=
  (shuffleFrom_ensures _ _).bind fun _ hys => .pure hys.toList

end Random

end Exemplar
