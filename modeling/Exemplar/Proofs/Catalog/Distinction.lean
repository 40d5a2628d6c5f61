import Exemplar.Proofs.Catalog.History
import Exemplar.Proofs.Catalog.Repetition

/-!
# Learned primitives are told apart

**A learned primitive differs on a probe tuple from every primitive of its signature that was there
before it**, provided that no call of it on a probe tuple is cut off; where a parameter is a function, so
that there are no probe tuples, it differs in its body from those that were learned before it
(`learned_separated`).

When a capability is admitted, nothing mimics its body. That nothing mimics it in any later catalog
either is an invariant of the offers (`Original.offer`): an old pair is compared by the same values as
before (`mimics_extends`), and a new pair has just been compared. What is compared there is the bare body,
which has one level more than the call of the primitive that was made of it; a call that is not cut off
ends in the same way with one level more (`Machine.evalAt_mono`).
-/

namespace Exemplar.Catalog

variable {c : Catalog} {p q : Primitive} {i j : PrimId} {body : Term}

/-- Two primitives end differently on some probe tuple: with two values, or only one of them with a
value. -/
def Separates (c : Catalog) (params : List Ty) (i j : PrimId) : Prop :=
  ∃ row ∈ Probe.inputs params c.probeLimit,
    (c.machine.apply i row).toOption ≠ (c.machine.apply j row).toOption

/-- A call is not cut off for its depth on any probe tuple. -/
def Completes (c : Catalog) (params : List Ty) (i : PrimId) : Prop :=
  ∀ row ∈ Probe.inputs params c.probeLimit, ∀ limit,
    c.machine.apply i row ≠ .error (.callDepthExceeded limit)

/-- No learned body is mimicked by an earlier primitive of its signature. -/
def Original (c : Catalog) : Prop :=
  ∀ i j p q body, i < j → c.table.get? i = some p → c.table.get? j = some q →
    q.rule = .learned body → p.signature = q.signature → ¬ c.Mimics q.signature body p

/-! ## One offer -/

theorem not_mimics_of_findEquivalent? {signature : Signature}
    (h : c.findEquivalent? signature body = none) (hp : p ∈ c.table.toList)
    (hsignature : p.signature = signature) : ¬ c.Mimics signature body p := by
  intro hmimics
  rw [findEquivalent?_eq, Option.map_eq_none_iff, List.find?_eq_none] at h
  exact h p hp (test_iff.mpr ⟨hsignature, hmimics⟩)

theorem Original.append (hc : c.Proper) (horiginal : c.Original) {o : Offer}
    (hinfer : o.body.infer c.table o.signature.params = .ok o.signature.ret)
    (hnone : c.findEquivalent? o.signature o.body = none) :
    (c.append o.name o.signature o.body o.cost).Original := by
  intro i j p q body hij hi hj hrule hsignature
  have hj' : j < c.table.size + 1 := Table.size_push c.table _ ▸ Table.lt_size_of_get? hj
  have hi' : i < c.table.size := hij.trans_le (Nat.le_of_lt_succ hj')
  rw [Catalog.append, Table.get?_push_of_lt _ hi'] at hi
  have hp : p ∈ c.table.toList := Table.mem_of_get? hi
  rcases Nat.lt_succ_iff_lt_or_eq.mp hj' with hold | rfl
  · rw [Catalog.append, Table.get?_push_of_lt _ hold] at hj
    have hbody : body.infer c.table q.signature.params = .ok q.signature.ret := by
      have hwell := hc.wellTyped q (Table.mem_of_get? hj)
      rwa [Primitive.WellTyped, hrule] at hwell
    have hextends : c.table.Extends (c.append o.name o.signature o.body o.cost).table :=
      c.table.extends_push _
    rw [mimics_extends hc hextends rfl rfl hbody hp]
    exact horiginal i j p q body hij hi hj hrule hsignature
  · rw [Catalog.append, Table.get?_push_size] at hj
    obtain rfl := Option.some.inj hj
    obtain rfl : o.body = body := Rule.learned.inj hrule
    have hnot := not_mimics_of_findEquivalent? hnone hp hsignature
    exact mt (mimics_append o.name o.cost hc hinfer hp).mp hnot

theorem Original.offer (hc : c.Proper) (horiginal : c.Original) (o : Offer) :
    (c.offer o).2.Original := by
  rw [Catalog.offer]
  split
  · rename_i a c' h
    obtain ⟨⟨-, hinfer⟩, ⟨-, -, -, rfl⟩ | ⟨hnone, -, rfl⟩⟩ := register_eq_ok.mp h
    · exact horiginal
    · exact horiginal.append hc hinfer hnone
  · exact horiginal

/-! ## All offers -/

theorem original_ofBuiltins (bs : List Builtin) (probeLimit : Nat) (limits : Limits) :
    (ofBuiltins bs probeLimit limits).Original := by
  intro i j p q body _ _ hj hrule _
  have hseeds : ∀ q ∈ (Table.ofBuiltins bs).toList, q.body? = none :=
    forall_mem_ofBuiltins (fun _ _ => rfl) bs
  have hnone := hseeds q (Table.mem_of_get? hj)
  rw [Primitive.body?, hrule] at hnone
  cases hnone

theorem Original.offerAll (hc : c.Grown) (horiginal : c.Original) (os : List Offer) :
    (c.offerAll os).Original := by
  induction os generalizing c with
  | nil => exact horiginal
  | cons o os ih => exact ih (hc.offerAll [o]) (horiginal.offer hc.proper o)

theorem offer_probeLimit (c : Catalog) (o : Offer) : (c.offer o).2.probeLimit = c.probeLimit := by
  obtain ⟨e, h⟩ | ⟨id, h⟩ | ⟨-, -, h⟩ := c.offer_cases o <;> rw [h]
  rfl

theorem offerAll_probeLimit (c : Catalog) (os : List Offer) :
    (c.offerAll os).probeLimit = c.probeLimit := by
  induction os generalizing c with
  | nil => rfl
  | cons o os ih => exact (ih (c.offer o).2).trans (c.offer_probeLimit o)

/-! ## Calls of learned primitives -/

theorem apply_of_completes (hj : c.table.get? j = some q) (hrule : q.rule = .learned body)
    (hcompletes : c.Completes q.signature.params j) {row : List Value}
    (hrow : row ∈ Probe.inputs q.signature.params c.probeLimit) :
    c.machine.apply j row = c.machine.eval body row := by
  have hlength : row.length = q.arity := Probe.length_of_mem_inputs hrow
  have happly : c.machine.apply j row = c.machine.evalAt c.limits.callDepth row body :=
    Machine.applyAt_learned hj hrule hlength _
  have huncut := hcompletes row hrow c.limits.callDepth
  rw [happly] at huncut ⊢
  exact (Machine.evalAt_mono (Nat.le_succ _) huncut).symm

theorem separates_of_not_mimics (hproper : c.Proper) (hi : c.table.get? i = some p)
    (hj : c.table.get? j = some q) (hrule : q.rule = .learned body)
    (hcompletes : c.Completes q.signature.params j)
    (hprobes : Probe.inputs q.signature.params c.probeLimit ≠ [])
    (hmimics : ¬ c.Mimics q.signature body p) : c.Separates q.signature.params i j := by
  by_contra hsame
  refine hmimics ⟨fun hempty => absurd hempty hprobes, fun row hrow => ?_⟩
  have hid : p.id = i := hproper.indexed.id_eq hi
  by_contra hdiffer
  refine hsame ⟨row, hrow, ?_⟩
  rwa [apply_of_completes hj hrule hcompletes hrow, ← hid]

/-- **A learned primitive is told apart from every primitive of its signature that was registered before
it.** If its parameters are plain data and no call on a probe tuple is cut off, a probe tuple separates
the two; if a parameter is a function, the earlier one does not have the same body. -/
theorem learned_separated (bs : List Builtin) (probeLimit : Nat) (limits : Limits) (os : List Offer) :
    let c := (ofBuiltins bs probeLimit limits).offerAll os
    ∀ i j p q body, i < j → c.table.get? i = some p → c.table.get? j = some q →
      q.rule = .learned body → p.signature = q.signature →
      ((∀ ty ∈ q.signature.params, ty.firstOrder = true) → c.Completes q.signature.params j →
        c.Separates q.signature.params i j) ∧
      ((∃ ty ∈ q.signature.params, ty.firstOrder = false) → p.rule ≠ .learned body) := by
  intro c i j p q body hij hi hj hrule hsignature
  have hgrown := grown_ofBuiltins bs probeLimit limits
  have horiginal : c.Original := (original_ofBuiltins bs probeLimit limits).offerAll hgrown os
  have hmimics := horiginal i j p q body hij hi hj hrule hsignature
  have hlimit : 1 ≤ c.probeLimit := by
    rw [offerAll_probeLimit]
    exact Nat.le_max_right probeLimit 1
  have hempty : Probe.inputs q.signature.params c.probeLimit = [] ↔
      ∃ ty ∈ q.signature.params, ty.firstOrder = false := Probe.inputs_eq_nil_iff hlimit
  constructor
  · intro hplain hcompletes
    refine separates_of_not_mimics (hgrown.offerAll os).proper hi hj hrule hcompletes ?_ hmimics
    intro hnil
    obtain ⟨ty, hty, hfunc⟩ := hempty.mp hnil
    rw [hplain ty hty] at hfunc
    cases hfunc
  · intro hfunc hsame
    have hnil := hempty.mpr hfunc
    refine hmimics ⟨fun _ => ?_, fun row hrow => ?_⟩
    · rw [Primitive.body?, hsame]
    · rw [hnil] at hrow
      cases hrow

/-- Three times a number is told apart from twice the number, and mapping twice from mapping once. -/
theorem learned_separated_triple :
    let os : List Offer := [
      ⟨"double", ⟨[.int], .int⟩, .apply 0 [.var 0, .var 0], 1⟩,
      ⟨"triple", ⟨[.int], .int⟩, .apply 0 [.var 0, .apply 2 [.var 0]], 1⟩,
      ⟨"each", ⟨[Builtin.intUnary, .list], .list⟩, .apply 1 [.var 0, .var 1], 1⟩,
      ⟨"again", ⟨[Builtin.intUnary, .list], .list⟩, .apply 1 [.var 0, .var 1], 1⟩,
      ⟨"eachTwice", ⟨[Builtin.intUnary, .list], .list⟩,
        .apply 1 [.var 0, .apply 1 [.var 0, .var 1]], 1⟩]
    let c := (ofBuiltins [.add, .map] 64 .standard).offerAll os
    let double : Primitive :=
      ⟨2, "double", ⟨[.int], .int⟩, .learned (.apply 0 [.var 0, .var 0]), 1⟩
    let triple : Primitive :=
      ⟨3, "triple", ⟨[.int], .int⟩, .learned (.apply 0 [.var 0, .apply 2 [.var 0]]), 1⟩
    let each : Primitive :=
      ⟨4, "each", ⟨[Builtin.intUnary, .list], .list⟩, .learned (.apply 1 [.var 0, .var 1]), 1⟩
    let eachTwice : Primitive :=
      ⟨5, "eachTwice", ⟨[Builtin.intUnary, .list], .list⟩,
        .learned (.apply 1 [.var 0, .apply 1 [.var 0, .var 1]]), 1⟩
    c.table.toList.drop 2 = [double, triple, each, eachTwice] ∧
      c.Completes [.int] 3 ∧ c.Separates [.int] 2 3 ∧
      each.rule ≠ .learned (.apply 1 [.var 0, .apply 1 [.var 0, .var 1]]) := by
  intro os c double triple each eachTwice
  have hlearned : c.table.toList.drop 2 = [double, triple, each, eachTwice] := by decide +kernel
  have hvalues : ∀ row ∈ Probe.inputs [.int] c.probeLimit,
      (c.machine.apply 3 row).toOption.isSome = true := by decide +kernel
  have hcompletes : c.Completes [.int] 3 := by
    intro row hrow limit hcut
    have hvalue := hvalues row hrow
    rw [hcut] at hvalue
    cases hvalue
  have hdouble : c.table.get? 2 = some double := by decide +kernel
  have htriple : c.table.get? 3 = some triple := by decide +kernel
  have heach : c.table.get? 4 = some each := by decide +kernel
  have heachTwice : c.table.get? 5 = some eachTwice := by decide +kernel
  have hnumbers := learned_separated [.add, .map] 64 .standard os 2 3 double triple _ (by decide)
    hdouble htriple rfl rfl
  have hlists := learned_separated [.add, .map] 64 .standard os 4 5 each eachTwice _ (by decide)
    heach heachTwice rfl rfl
  exact ⟨hlearned, hcompletes, hnumbers.1 (by decide) hcompletes, hlists.2 (by decide)⟩

end Exemplar.Catalog
