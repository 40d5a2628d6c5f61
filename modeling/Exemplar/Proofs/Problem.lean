import Exemplar.Error
import Exemplar.Experience.Features
import Exemplar.Proofs.Typing
import Mathlib.Data.List.Perm.Basic

/-!
# Which examples make a problem

**Examples have a signature exactly if there is one and all of them are plain data of its types**
(`signature_exact`). Nothing of this depends on which example comes first, although the signature is read
off the first one and the others are compared with it.
-/

namespace Exemplar

/-- Plain data with its type. -/
inductive Value.Plain : Value → Ty → Prop
  | int (n : Int) : Plain (.int n) .int
  | bool (b : Bool) : Plain (.bool b) .bool
  | list (xs : List Int) : Plain (.list xs) .list

theorem Value.plainTy?_eq_some_iff {v : Value} {ty : Ty} : v.plainTy? = some ty ↔ v.Plain ty := by
  constructor
  · intro h
    cases v with
    | func f => cases h
    | int n => exact Option.some.inj h ▸ .int n
    | bool b => exact Option.some.inj h ▸ .bool b
    | list xs => exact Option.some.inj h ▸ .list xs
  · rintro (_ | _ | _) <;> rfl

theorem toOption_eq_some_iff {ε α : Type} {r : Except ε α} {a : α} : r.toOption = some a ↔ r = .ok a := by
  cases r <;> simp [Except.toOption]

namespace Problem

variable {es es' : List Example}

theorem fits_iff {s : Signature} {e : Example} :
    Fits s e ↔ List.Forall₂ Value.Plain e.inputs s.params ∧ e.output.Plain s.ret := by
  simp only [Fits, Value.plainTy?_eq_some_iff]

theorem signature_perm (h : es.Perm es') : (signature es').toOption = (signature es).toOption := by
  refine Option.ext fun s => ?_
  have hempty : es' ≠ [] ↔ es ≠ [] := not_congr ⟨fun hnil => List.perm_nil.mp (hnil ▸ h),
    fun hnil => List.nil_perm.mp (hnil ▸ h)⟩
  have hfits : (∀ e ∈ es', Fits s e) ↔ ∀ e ∈ es, Fits s e := by simp only [h.mem_iff]
  rw [toOption_eq_some_iff, toOption_eq_some_iff, signature_eq_ok_iff, signature_eq_ok_iff, hempty, hfits]

theorem features_perm (h : es.Perm es') :
    (Features.ofExamples es').toOption = (Features.ofExamples es).toOption := by
  have hmagnitude : ((es'.flatMap Features.integersOf).map Int.natAbs).foldl max 0 =
      ((es.flatMap Features.integersOf).map Int.natAbs).foldl max 0 :=
    ((h.symm.flatMap_right _).map _).foldl_eq 0
  have hfeatures : ∀ es, (Features.ofExamples es).toOption = (signature es).toOption.map fun s =>
      ⟨s, es.length, ((es.flatMap Features.integersOf).map Int.natAbs).foldl max 0⟩ := by
    intro es
    rw [Features.ofExamples]
    cases signature es <;> rfl
  rw [hfeatures, hfeatures, signature_perm h, h.length_eq, hmagnitude]

/-- **A signature is found exactly if there are examples and all of them are plain data of its types.** A
refusal is the caller's error. Rearranging the examples changes neither whether there is a signature, nor
the signature, nor the features of the problem and its bucket. -/
theorem signature_exact (es : List Example) :
    (∀ s, signature es = .ok s ↔ es ≠ [] ∧
      ∀ e ∈ es, List.Forall₂ Value.Plain e.inputs s.params ∧ e.output.Plain s.ret) ∧
    (∀ e, Error.lift .problem (signature es) = .error e →
      e.kind = .invalidProblem ∧ e.fatal = true) ∧
    ∀ es' : List Example, es.Perm es' → (signature es').toOption = (signature es).toOption ∧
      (Features.ofExamples es').toOption = (Features.ofExamples es).toOption ∧
      (Features.ofExamples es').toOption.map Features.bucket =
        (Features.ofExamples es).toOption.map Features.bucket := by
  refine ⟨fun s => ?_, fun e he => ?_, fun es' hperm => ?_⟩
  · simp only [signature_eq_ok_iff, fits_iff]
  · cases hsignature : signature es with
    | ok s =>
      rw [hsignature] at he
      cases he
    | error cause =>
      rw [hsignature] at he
      obtain rfl : .problem cause = e := Except.error.inj he
      exact ⟨rfl, rfl⟩
  · have hfeatures := features_perm hperm
    exact ⟨signature_perm hperm, hfeatures, by rw [hfeatures]⟩

end Problem

end Exemplar
