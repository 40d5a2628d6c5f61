import Mathlib.Data.List.Forall2

/-!
# Results of computations that may fail

When a sequence of steps succeeds (`bind_eq_ok`), and when a step succeeds on every member of a list
(`mapM_eq_ok`).
-/

namespace Exemplar

variable {ε α β : Type}

instance decidableEqOk [DecidableEq α] (r : Except ε α) (a : α) : Decidable (r = .ok a) :=
  match r with
  | .ok b => decidable_of_iff (b = a) ⟨congrArg _, Except.ok.inj⟩
  | .error _ => isFalse (fun h => nomatch h)

instance decidableEqError [DecidableEq ε] (r : Except ε α) (e : ε) : Decidable (r = .error e) :=
  match r with
  | .ok _ => isFalse (fun h => nomatch h)
  | .error f => decidable_of_iff (f = e) ⟨congrArg _, Except.error.inj⟩

instance decidableIsOk (r : Except ε α) : Decidable (∃ a, r = .ok a) :=
  match r with
  | .ok a => isTrue ⟨a, rfl⟩
  | .error _ => isFalse (fun ⟨_, h⟩ => nomatch h)

theorem bind_eq_ok {r : Except ε α} {f : α → Except ε β} {b : β} :
    (r >>= f) = .ok b ↔ ∃ a, r = .ok a ∧ f a = .ok b := by
  cases r <;> simp [bind, Except.bind]

theorem pure_eq_ok {a b : α} : (pure a : Except ε α) = .ok b ↔ a = b := by
  simp [pure, Except.pure]

theorem mapM_eq_ok {f : α → Except ε β} {xs : List α} {ys : List β} :
    xs.mapM f = .ok ys ↔ List.Forall₂ (fun x y => f x = .ok y) xs ys := by
  induction xs generalizing ys with
  | nil => cases ys <;> simp [pure_eq_ok]
  | cons x xs ih =>
    rw [List.mapM_cons, List.forall₂_cons_left_iff, bind_eq_ok]
    constructor
    · rintro ⟨y, hy, htail⟩
      obtain ⟨zs, hzs, hys⟩ := bind_eq_ok.mp htail
      exact ⟨y, zs, hy, ih.mp hzs, (pure_eq_ok.mp hys).symm⟩
    · rintro ⟨y, zs, hy, hzs, rfl⟩
      exact ⟨y, hy, bind_eq_ok.mpr ⟨zs, ih.mpr hzs, rfl⟩⟩

end Exemplar
