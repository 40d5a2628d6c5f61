import Exemplar.Ty

/-!
# The order of types

The order of types is total, transitive, and tells different types apart (`transCmp_order`,
`order_eq_eq`).

It is the lexicographic order of the codes of types (`order_eq_compare`). A code spells a type in numbers:
the place of its outermost form and, of a function type, the codes of its parameters, each behind a one,
then a zero, and the code of the result. No code begins another one. So the comparison of two codes is
decided within them, whatever follows (`compare_code`).
-/

namespace Exemplar.Ty

/-! ## Codes -/

mutual

/-- The numbers that spell a type. -/
def code : Ty → List Nat
  | .func ps r => 3 :: (codes ps ++ code r)
  | a => [a.rank]

/-- The codes of the members of a list, with a mark before each and another one at the end. -/
def codes : List Ty → List Nat
  | [] => [0]
  | p :: ps => 1 :: (code p ++ codes ps)

end

mutual

theorem compare_code (a b : Ty) (xs ys : List Nat) :
    compare (a.code ++ xs) (b.code ++ ys) = (a.order b).then (compare xs ys) := by
  cases a with
  | func ps r =>
    cases b with
    | func qs s =>
      rw [order, code, code, Ordering.then_assoc, ← compare_code r s, ← compare_codes ps qs]
      simp [List.compare_cons_cons]
    | _ => rfl
  | _ => cases b <;> rfl

theorem compare_codes (ps qs : List Ty) (xs ys : List Nat) :
    compare (codes ps ++ xs) (codes qs ++ ys) = (orderList ps qs).then (compare xs ys) := by
  cases ps with
  | nil => cases qs <;> rfl
  | cons p ps =>
    cases qs with
    | nil => rfl
    | cons q qs =>
      rw [orderList, codes, codes, Ordering.then_assoc, ← compare_codes ps qs, ← compare_code p q]
      simp [List.compare_cons_cons]

end

theorem order_eq_compare (a b : Ty) : a.order b = compare a.code b.code := by
  have h := compare_code a b [] []
  rw [List.append_nil, List.append_nil, List.compare_nil_nil, Ordering.then_eq] at h
  exact h.symm

theorem transCmp_of_code {α : Type} {order : α → α → Ordering} {code : α → List Nat}
    (h : ∀ a b, order a b = compare (code a) (code b)) : Std.TransCmp order where
  eq_swap := by
    intro a b
    rw [h, h]
    exact Std.OrientedCmp.eq_swap
  isLE_trans := by
    intro a b c
    rw [h, h, h]
    exact Std.TransCmp.isLE_trans

instance transCmp_order : Std.TransCmp order := transCmp_of_code order_eq_compare

/-! ## Equality -/

mutual

theorem eq_of_order (a b : Ty) (h : a.order b = .eq) : a = b := by
  cases a with
  | func ps r =>
    cases b with
    | func qs s =>
      obtain ⟨hparams, hret⟩ := Ordering.then_eq_eq.mp h
      rw [eq_of_orderList ps qs hparams, eq_of_order r s hret]
    | _ => cases h
  | _ => cases b <;> simp [order, rank] at h ⊢

theorem eq_of_orderList (ps qs : List Ty) (h : orderList ps qs = .eq) : ps = qs := by
  cases ps with
  | nil =>
    cases qs with
    | nil => rfl
    | cons q qs => cases h
  | cons p ps =>
    cases qs with
    | nil => cases h
    | cons q qs =>
      obtain ⟨hhead, htail⟩ := Ordering.then_eq_eq.mp h
      rw [eq_of_order p q hhead, eq_of_orderList ps qs htail]

end

theorem order_eq_eq {a b : Ty} : a.order b = .eq ↔ a = b := by
  refine ⟨eq_of_order a b, ?_⟩
  rintro rfl
  exact Std.ReflCmp.compare_self

end Exemplar.Ty
