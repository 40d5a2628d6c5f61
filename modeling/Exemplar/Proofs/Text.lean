import Exemplar.Ty
import Std.Data.String.ToNat

/-!
# Texts that are read back

**Different numbers have different numerals, and different types have different texts**
(`Nat.repr_injective`, `Ty.text_injective`).

A numeral or a type can be read off the front of any characters that begin with its text: what is read and
what is left over are determined (`toDigits_append_inj`, `Ty.text_append_inj`). A numeral ends where the
digits end. For types this is by induction. Of a function type the parameters are read one after the other
up to the blank in front of the arrow. Behind a parameter a comma goes on and a blank does not
(`Ty.separated_append_inj`), and no type begins with a blank, so that the arrow is not taken for a parameter
where there is none.
-/

namespace Exemplar

/-! ## Numerals -/

theorem append_inj_of_span {p : Char → Bool} {as bs xs ys : List Char} {x y : Char}
    (has : ∀ c ∈ as, p c = true) (hbs : ∀ c ∈ bs, p c = true) (hx : p x = false) (hy : p y = false)
    (h : as ++ x :: xs = bs ++ y :: ys) : as = bs ∧ x :: xs = y :: ys := by
  have hspan := congrArg (List.takeWhile p) h
  rw [List.takeWhile_append_of_pos has, List.takeWhile_append_of_pos hbs,
    List.takeWhile_cons_of_neg (by simp [hx]), List.takeWhile_cons_of_neg (by simp [hy]),
    List.append_nil, List.append_nil] at hspan
  exact ⟨hspan, List.append_cancel_left (hspan ▸ h)⟩

theorem toDigits_append_inj {m n : Nat} {x y : Char} {xs ys : List Char} (hx : x.isDigit = false)
    (hy : y.isDigit = false) (h : Nat.toDigits 10 m ++ x :: xs = Nat.toDigits 10 n ++ y :: ys) :
    m = n ∧ x :: xs = y :: ys := by
  have hdigits : ∀ k, ∀ c ∈ Nat.toDigits 10 k, c.isDigit = true := fun k c hc =>
    Nat.isDigit_of_mem_toDigits (by decide) (Nat.le_refl 10) hc
  obtain ⟨hsame, hrest⟩ := append_inj_of_span (hdigits m) (hdigits n) hx hy h
  exact ⟨Nat.repr_injective (congrArg String.ofList hsame), hrest⟩

namespace Ty

/-! ## Types -/

/-- The texts of types, each behind a comma and a blank. -/
def separated : List Ty → List Char
  | [] => []
  | p :: ps => ',' :: ' ' :: (p.text.toList ++ separated ps)

theorem toList_commas (p : Ty) (ps : List Ty) :
    (Text.commas (texts (p :: ps))).toList = p.text.toList ++ separated ps := by
  induction ps generalizing p with
  | nil => simp [texts, Text.commas, separated]
  | cons q ps ih =>
    have hrest := ih q
    rw [texts] at hrest
    simp [texts, Text.commas, separated, hrest]

theorem toList_text_func (ps : List Ty) (r : Ty) : (func ps r).text.toList =
    '(' :: ((Text.commas (texts ps)).toList ++ ' ' :: '-' :: '>' :: ' ' :: (r.text.toList ++ [')'])) := by
  simp [text]

theorem toList_text_ne_blank (a : Ty) (xs ys : List Char) : a.text.toList ++ xs ≠ ' ' :: ys := by
  cases a with
  | func ps r => simp [toList_text_func]
  | _ => simp [text]

mutual

/-- **A type and what follows its text are determined by the characters.** -/
theorem text_append_inj (a b : Ty) {xs ys : List Char}
    (h : a.text.toList ++ xs = b.text.toList ++ ys) : a = b ∧ xs = ys := by
  cases a with
  | func ps r =>
    cases b with
    | func qs s =>
      simp only [toList_text_func, List.cons_append, List.append_assoc, List.cons.injEq, true_and] at h
      -- the parameters, then the result behind the arrow, then the bracket
      obtain ⟨rfl, hret⟩ := params_append_inj ps qs h
      simp only [List.cons.injEq, true_and] at hret
      obtain ⟨rfl, hrest⟩ := text_append_inj r s hret
      exact ⟨rfl, (List.cons.inj hrest).2⟩
    | _ => simp [text] at h
  | _ =>
    -- only the same type begins with the same letter
    cases b <;> simp [text] at h ⊢
    exact h

theorem params_append_inj (ps qs : List Ty) {xs ys : List Char}
    (h : (Text.commas (texts ps)).toList ++ ' ' :: xs = (Text.commas (texts qs)).toList ++ ' ' :: ys) :
    ps = qs ∧ xs = ys := by
  match ps, qs with
  | [], [] => exact ⟨rfl, (List.cons.inj h).2⟩
  | [], q :: qs =>
    rw [toList_commas, List.append_assoc] at h
    exact absurd h.symm (toList_text_ne_blank q _ _)
  | p :: ps, [] =>
    rw [toList_commas, List.append_assoc] at h
    exact absurd h (toList_text_ne_blank p _ _)
  | p :: ps, q :: qs =>
    rw [toList_commas, toList_commas, List.append_assoc, List.append_assoc] at h
    obtain ⟨rfl, hrest⟩ := text_append_inj p q h
    obtain ⟨rfl, htail⟩ := separated_append_inj ps qs hrest
    exact ⟨rfl, htail⟩

theorem separated_append_inj (ps qs : List Ty) {xs ys : List Char}
    (h : separated ps ++ ' ' :: xs = separated qs ++ ' ' :: ys) : ps = qs ∧ xs = ys := by
  match ps, qs with
  | [], [] => exact ⟨rfl, (List.cons.inj h).2⟩
  | [], q :: qs => simp [separated] at h
  | p :: ps, [] => simp [separated] at h
  | p :: ps, q :: qs =>
    simp only [separated, List.cons_append, List.append_assoc, List.cons.injEq, true_and] at h
    obtain ⟨rfl, hrest⟩ := text_append_inj p q h
    obtain ⟨rfl, htail⟩ := separated_append_inj ps qs hrest
    exact ⟨rfl, htail⟩

end

theorem text_injective : Function.Injective text := by
  intro a b h
  have hchars : a.text.toList ++ [] = b.text.toList ++ [] := by rw [h]
  exact (text_append_inj a b hchars).1

end Ty

end Exemplar
