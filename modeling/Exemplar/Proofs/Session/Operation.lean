import Exemplar.Session.Basic

/-!
# Operations on sessions

What the steps of an operation come to, and that a sequence of steps ends at the first error.
-/

namespace Exemplar.Session

variable {α β : Type}

@[simp] theorem perform_pure (s : Session) (a : α) : s.perform (pure a) = (.ok a, s) := rfl

@[simp] theorem perform_throw (s : Session) (e : Error) :
    s.perform (throw e : Op α) = (.error e, s) := rfl

@[simp] theorem perform_get (s : Session) : s.perform get = (.ok s, s) := rfl

@[simp] theorem perform_set (s s' : Session) : s.perform (set s') = (.ok (), s') := rfl

@[simp] theorem perform_of (s : Session) (r : Except Error α) : s.perform (Op.of r) = (r, s) := by
  cases r <;> rfl

theorem perform_bind (s : Session) (x : Op α) (f : α → Op β) :
    s.perform (x >>= f) =
      match s.perform x with
      | (.ok a, s') => s'.perform (f a)
      | (.error e, s') => (.error e, s') := by
  rcases h : s.perform x with ⟨r, s'⟩
  have hrun : s.perform (x >>= f) =
      (ExceptT.bindCont f (s.perform x).1).run (s.perform x).2 := rfl
  rw [hrun, h]
  cases r <;> rfl

theorem perform_bind_eq_ok {s s' : Session} {x : Op α} {f : α → Op β} {b : β} :
    s.perform (x >>= f) = (.ok b, s') ↔
      ∃ a s₁, s.perform x = (.ok a, s₁) ∧ s₁.perform (f a) = (.ok b, s') := by
  rw [perform_bind]
  rcases s.perform x with ⟨_ | a, s₁⟩
  · simp
  · constructor
    · exact fun h => ⟨a, s₁, rfl, h⟩
    · rintro ⟨_, _, hx, h⟩
      cases hx
      exact h

@[simp] theorem perform_map (s : Session) (f : α → β) (x : Op α) :
    s.perform (f <$> x) = ((s.perform x).1.map f, (s.perform x).2) := by
  rw [map_eq_pure_bind, perform_bind]
  rcases s.perform x with ⟨_ | _, _⟩ <;> rfl

end Exemplar.Session
