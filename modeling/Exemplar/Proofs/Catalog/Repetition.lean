import Exemplar.Proofs.Catalog

/-!
# Offering a capability again

**What was admitted is found when it is offered again, if its body has its values on the probe tuples
with one level less than a program has; if not, it is admitted a second time** (`register_again`).

What is offered is evaluated as a program, and what is there is applied. A body that has become a
primitive is one level deeper in this comparison than when it was offered (`Machine.applyAt_learned`).
With enough levels the two agree (`Machine.evalAt_mono`); a body that needs the last level is not
recognised (`register_twice`). Nothing else can tell them apart, as what is in the catalog already
behaves as before (`mimics_append`).
-/

namespace Exemplar

namespace Catalog

variable {c c' : Catalog} {name : String} {signature : Signature} {body : Term} {cost : Nat}

/-! ## Comparison -/

/-- A primitive ends like a program on every probe tuple, or has it for a body where there are none. -/
def Mimics (c : Catalog) (signature : Signature) (body : Term) (p : Primitive) : Prop :=
  (Probe.inputs signature.params c.probeLimit = [] → p.body? = some body) ∧
    ∀ row ∈ Probe.inputs signature.params c.probeLimit,
      (c.machine.apply p.id row).toOption = (c.machine.eval body row).toOption

/-- The test by which a catalog looks for what was offered. -/
def test (c : Catalog) (signature : Signature) (body : Term) (p : Primitive) : Bool :=
  let probes := Probe.inputs signature.params c.probeLimit
  p.signature == signature &&
    c.behavesLike probes (probes.map fun row => (c.machine.eval body row).toOption) body p

theorem test_iff {p : Primitive} :
    c.test signature body p = true ↔ p.signature = signature ∧ c.Mimics signature body p := by
  rw [test, Bool.and_eq_true, beq_iff_eq, behavesLike, Mimics]
  split
  · rename_i hempty
    simp [List.isEmpty_iff.mp hempty]
  · rename_i hprobes
    have hne : Probe.inputs signature.params c.probeLimit ≠ [] := by simpa using hprobes
    rw [← List.map_prod_left_eq_zip]
    simp [hne]

theorem findEquivalent?_eq : c.findEquivalent? signature body =
    (c.table.toList.find? (c.test signature body)).map Primitive.id := rfl

/-- A program has its values on the probe tuples with one level less than a program has. -/
def SparesLevel (c : Catalog) (signature : Signature) (body : Term) : Prop :=
  ∀ row ∈ Probe.inputs signature.params c.probeLimit, ∀ v,
    c.machine.eval body row = .ok v → c.machine.evalAt c.limits.callDepth row body = .ok v

instance : Decidable (c.SparesLevel signature body) :=
  decidable_of_iff
    (∀ row ∈ Probe.inputs signature.params c.probeLimit, ∀ v ∈ (c.machine.eval body row).toOption,
      c.machine.evalAt c.limits.callDepth row body = .ok v)
    (forall₂_congr fun row _ => forall_congr' fun v => by
      cases c.machine.eval body row <;> simp [Except.toOption, eq_comm])

/-! ## Comparison in a larger catalog -/

theorem mimics_extends (hc : c.Proper) (hextends : c.table.Extends c'.table)
    (hlimits : c'.limits = c.limits) (hprobes : c'.probeLimit = c.probeLimit)
    (hinfer : body.infer c.table signature.params = .ok signature.ret) {p : Primitive}
    (hp : p ∈ c.table.toList) : c'.Mimics signature body p ↔ c.Mimics signature body p := by
  have hid : p.id < c.table.size := Table.lt_size_of_get? (hc.indexed.get?_id hp)
  have happly : ∀ row ∈ Probe.inputs signature.params c.probeLimit,
      c'.machine.apply p.id row = c.machine.apply p.id row := by
    intro row hrow
    rw [Catalog.machine, hlimits]
    exact hextends.applyAt_eq hc.wellTyped.sealed _ hid (Probe.within_of_mem_inputs hrow)
  have heval : ∀ row ∈ Probe.inputs signature.params c.probeLimit,
      c'.machine.eval body row = c.machine.eval body row := by
    intro row hrow
    rw [Catalog.machine, hlimits]
    exact hextends.evalAt_eq hc.wellTyped.sealed _ (Probe.within_of_mem_inputs hrow)
      (Term.lt_size_of_infer hinfer)
  rw [Mimics, Mimics, hprobes]
  refine and_congr .rfl (forall₂_congr fun row hrow => ?_)
  rw [happly row hrow, heval row hrow]

/-! ## Comparison after an admission -/

section append

variable (hc : c.Proper) (hinfer : body.infer c.table signature.params = .ok signature.ret)
  (name cost)
include hc hinfer

theorem eval_append {row : List Value}
    (hrow : row ∈ Probe.inputs signature.params c.probeLimit) (n : Nat) :
    (c.append name signature body cost).machine.evalAt n row body = c.machine.evalAt n row body :=
  (c.table.extends_push _).evalAt_eq hc.wellTyped.sealed n (Probe.within_of_mem_inputs hrow)
    (Term.lt_size_of_infer hinfer)

theorem mimics_append {p : Primitive} (hp : p ∈ c.table.toList) :
    (c.append name signature body cost).Mimics signature body p ↔ c.Mimics signature body p := by
  have hextends : c.table.Extends (c.append name signature body cost).table :=
    c.table.extends_push _
  exact mimics_extends hc hextends rfl rfl hinfer hp

/-- A body and the primitive that was made of it compare equal if the body spares a level. -/
theorem mimics_last : (c.append name signature body cost).Mimics signature body
    (.ofBody c.size name signature body cost) ↔ c.SparesLevel signature body := by
  have happly : ∀ row ∈ Probe.inputs signature.params c.probeLimit,
      (c.append name signature body cost).machine.apply c.size row =
        c.machine.evalAt c.limits.callDepth row body := by
    intro row hrow
    rw [← eval_append name cost hc hinfer hrow]
    exact Machine.applyAt_learned (c.table.get?_push_size _) rfl (Probe.length_of_mem_inputs hrow) _
  have heval : ∀ row ∈ Probe.inputs signature.params c.probeLimit,
      (c.append name signature body cost).machine.eval body row = c.machine.eval body row :=
    fun row hrow => eval_append name cost hc hinfer hrow _
  refine (and_iff_right fun _ => rfl).trans (forall₂_congr fun row hrow => ?_)
  rw [heval row hrow, Primitive.ofBody, happly row hrow]
  -- where the primitive has a value the body has it too, so only the other direction is in question
  have hmono : ∀ v, c.machine.evalAt c.limits.callDepth row body = .ok v →
      c.machine.eval body row = .ok v := by
    intro v hv
    rw [← hv]
    refine Machine.evalAt_mono (Nat.le_succ _) fun h => ?_
    cases hv.symm.trans h
  cases hless : c.machine.evalAt c.limits.callDepth row body with
  | ok w =>
    rw [hmono w hless]
    simp
  | error f => cases c.machine.eval body row <;> simp [Except.toOption]

theorem find?_append (hnone : c.findEquivalent? signature body = none) :
    (c.append name signature body cost).table.toList.find?
        ((c.append name signature body cost).test signature body) =
      if (c.append name signature body cost).test signature body
          (.ofBody c.size name signature body cost) then
        some (.ofBody c.size name signature body cost)
      else none := by
  rw [findEquivalent?_eq, Option.map_eq_none_iff, List.find?_eq_none] at hnone
  have hold : c.table.toList.find? ((c.append name signature body cost).test signature body) =
      none := by
    refine List.find?_eq_none.mpr fun p hp htest => hnone p hp ?_
    rw [test_iff, mimics_append name cost hc hinfer hp] at htest
    exact test_iff.mpr htest
  rw [append, Table.toList_push, List.find?_append, ← append, hold, Option.none_or,
    List.find?_singleton]

end append

/-! ## Offering again -/

/-- **A capability that was just admitted is offered again** under a free name. It is found as a
duplicate if its body spares a level on the probe tuples, and is admitted once more if it does not. -/
theorem register_again (hc : c.Grown) {id : PrimId}
    (hfirst : c.register name signature body cost = .ok (.admitted id, c')) {name' : String}
    (hfree : c'.table.find? name' = none) (cost' : Nat) :
    (c.SparesLevel signature body →
      c'.register name' signature body cost' = .ok (.duplicate id, c')) ∧
    (¬ c.SparesLevel signature body →
      c'.register name' signature body cost' =
        .ok (.admitted c'.size, c'.append name' signature body cost')) := by
  obtain ⟨⟨-, hinfer⟩, hnone, rfl, rfl⟩ := register_eq_admitted.mp hfirst
  have hinfer' := Term.infer_extends (c.table.extends_push (.ofBody c.size name signature body cost))
    hinfer
  have hfind := find?_append name cost hc.proper hinfer hnone
  have hlast : (c.append name signature body cost).test signature body
      (.ofBody c.size name signature body cost) = true ↔ c.SparesLevel signature body := by
    rw [test_iff, mimics_last name cost hc.proper hinfer]
    exact and_iff_right rfl
  constructor
  · intro hspares
    rw [if_pos (hlast.mpr hspares)] at hfind
    refine register_eq_ok.mpr ⟨⟨hfree, hinfer'⟩, .inl ⟨c.size, ?_, rfl, rfl⟩⟩
    rw [findEquivalent?_eq, hfind]
    rfl
  · intro hspares
    rw [if_neg (mt hlast.mp hspares)] at hfind
    refine register_eq_ok.mpr ⟨⟨hfree, hinfer'⟩, .inr ⟨?_, rfl, rfl⟩⟩
    rw [findEquivalent?_eq, hfind]
    rfl

theorem register_again_double :
    let c := ofBuiltins [.add] 64 .standard
    let body : Term := .apply 0 [.var 0, .var 0]
    let c' := c.append "double" ⟨[.int], .int⟩ body 1
    c.register "double" ⟨[.int], .int⟩ body 1 = .ok (.admitted 1, c') ∧
      c'.table.find? "twice" = none ∧ c.SparesLevel ⟨[.int], .int⟩ body ∧
      c'.register "twice" ⟨[.int], .int⟩ body 3 = .ok (.duplicate 1, c') := by
  intro c body c'
  have hfirst : c.register "double" ⟨[.int], .int⟩ body 1 = .ok (.admitted 1, c') :=
    register_eq_admitted.mpr ⟨by decide +kernel, by decide +kernel, rfl, rfl⟩
  have hfree : c'.table.find? "twice" = none := by decide +kernel
  have hspares : c.SparesLevel ⟨[.int], .int⟩ body := by decide +kernel
  exact ⟨hfirst, hfree, hspares,
    (register_again (grown_ofBuiltins _ _ _) hfirst hfree 3).1 hspares⟩

/-- Without nested calls the sum of a number with itself is admitted under two names. -/
theorem register_twice :
    let c := ofBuiltins [.add] 64 ⟨100, 0⟩
    let body : Term := .apply 0 [.var 0, .var 0]
    let c' := c.append "double" ⟨[.int], .int⟩ body 1
    c.Grown ∧ c.register "double" ⟨[.int], .int⟩ body 1 = .ok (.admitted 1, c') ∧
      c'.table.find? "twice" = none ∧
      c'.register "twice" ⟨[.int], .int⟩ body 1 =
        .ok (.admitted 2, c'.append "twice" ⟨[.int], .int⟩ body 1) :=
  ⟨grown_ofBuiltins _ _ _,
    register_eq_admitted.mpr ⟨by decide +kernel, by decide +kernel, rfl, rfl⟩, by decide +kernel,
    register_eq_admitted.mpr ⟨by decide +kernel, by decide +kernel, rfl, rfl⟩⟩

end Catalog

end Exemplar
