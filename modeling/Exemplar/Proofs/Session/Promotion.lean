import Exemplar.Proofs.Catalog
import Exemplar.Proofs.Session.Operation
import Exemplar.Session.Expansion

/-!
# Promotion

**A promoted program computes in the session what it computed where it was found, on all inputs for
which both have the same primitives at the positions that the evaluation can reach**
(`promoted_eval`).

The lineage of a program is checked by names alone. Names do not fix what primitives do: two catalogs
may have learned different capabilities under one name, and then a program from the one is accepted
by the other, where it computes something else (`promoted_differs`).
-/

namespace Exemplar

namespace Session

variable {s s' : Session} {p : Program}

/-! ## The steps of a promotion -/

theorem perform_promote (s : Session) (p : Program) :
    s.perform (promote p) =
      match p.table.continuedBy s.catalog.table, p.require with
      | false, _ => (.error .foreignProgram, s)
      | true, .error cause => (.error (.shortfall cause), s)
      | true, .ok () =>
        match s.catalog.register s.catalog.freeName p.signature p.term capabilityCost with
        | .error e => (.error e, s)
        | .ok (.admitted _, catalog) =>
          (.ok true, { s with catalog, tally.admitted := s.tally.admitted + 1 })
        | .ok (.duplicate _, _) =>
          (.ok false, { s with tally.duplicates := s.tally.duplicates + 1 }) := by
  rw [promote, perform_bind, perform_get]
  cases hlineage : p.table.continuedBy s.catalog.table with
  | false => simp [hlineage]
  | true =>
    cases p.require with
    | error cause => simp [hlineage, perform_bind, Error.lift]
    | ok u =>
      cases hregister : s.catalog.register s.catalog.freeName p.signature p.term capabilityCost with
      | error e => simp [hlineage, perform_bind, hregister, Error.lift]
      | ok r =>
        obtain ⟨a, catalog⟩ := r
        cases a <;> simp [hlineage, perform_bind, hregister, Error.lift, Except.map]

theorem perform_promote_admitted (hlineage : p.table.continuedBy s.catalog.table = true)
    (hrequire : p.require = .ok ()) (hfree : s.catalog.table.find? s.catalog.freeName = none)
    (hinfer : p.term.infer s.catalog.table p.signature.params = .ok p.signature.ret)
    (hnew : s.catalog.findEquivalent? p.signature p.term = none) :
    s.perform (promote p) =
      (.ok true, { s with
        catalog := s.catalog.append s.catalog.freeName p.signature p.term capabilityCost
        tally.admitted := s.tally.admitted + 1 }) := by
  have hregister : s.catalog.register s.catalog.freeName p.signature p.term capabilityCost =
      .ok (.admitted s.catalog.size, _) :=
    Catalog.register_eq_admitted.mpr ⟨⟨hfree, hinfer⟩, hnew, rfl, rfl⟩
  rw [perform_promote, hlineage, hrequire, hregister]

theorem promote_extends {admitted : Bool} (h : s.perform (promote p) = (.ok admitted, s')) :
    s.catalog.table.Extends s'.catalog.table := by
  rw [perform_promote] at h
  split at h
  · cases h
  · cases h
  · split at h
    · cases h
    · rename_i hregister
      obtain ⟨-, rfl⟩ := Prod.mk.inj h
      exact Catalog.Step.extends ⟨_, _, _, _, _, hregister⟩
    · obtain ⟨-, rfl⟩ := Prod.mk.inj h
      exact fun _ _ hget => hget

/-! ## What a promoted program means -/

/-- **A promoted program computes what it computed where it was found**, value or fault, on inputs for
which the primitives in reach are those of the session. -/
theorem promoted_eval {admitted : Bool} (h : s.perform (promote p) = (.ok admitted, s'))
    {inputs : List Value}
    (hsame : ∀ id ∈ p.table.reach (p.term.primitives ++ inputs.flatMap Value.primitives),
      ∃ q, p.table.get? id = some q ∧ s.catalog.table.get? id = some q) :
    (s'.catalog.table.machine p.limits).eval p.term inputs = p.call inputs := by
  -- an evaluation stays among what the term and the inputs reach, and there nothing differs
  have hget : ∀ id ∈ p.table.reach (p.term.primitives ++ inputs.flatMap Value.primitives),
      s'.catalog.table.get? id = p.table.get? id := by
    intro id hid
    obtain ⟨q, htheirs, hours⟩ := hsame id hid
    rw [htheirs, promote_extends h id q hours]
  have hinputs : Value.AllWithin
      (· ∈ p.table.reach (p.term.primitives ++ inputs.flatMap Value.primitives)) inputs :=
    fun v hv id hid => Table.subset_reach
      (List.mem_append_right _ (List.mem_flatMap.mpr ⟨v, hv, hid⟩))
  exact Table.evalAt_eq_of_shared hget (p.table.reach_closed _) _ hinputs fun id hid =>
    Table.subset_reach (List.mem_append_left _ hid)

/-- A catalog of sums and products that learned `f` with a body. -/
def catalogWith (body : Term) : Catalog :=
  (Catalog.ofBuiltins [.add, .mul] 64 .standard).append "f" ⟨[.int], .int⟩ body 1

theorem grown_catalogWith {body : Term}
    (hinfer : body.infer (.ofBuiltins [.add, .mul]) [.int] = .ok .int)
    (hnew : (Catalog.ofBuiltins [.add, .mul] 64 .standard).findEquivalent? ⟨[.int], .int⟩ body =
      none) : (catalogWith body).Grown := by
  have hregister : (Catalog.ofBuiltins [.add, .mul] 64 .standard).register "f" ⟨[.int], .int⟩ body 1 =
      .ok (.admitted 2, catalogWith body) :=
    Catalog.register_eq_admitted.mpr ⟨⟨by decide, hinfer⟩, hnew, rfl, rfl⟩
  exact (Catalog.grown_ofBuiltins _ _ _).register hregister

def doubling : Catalog := catalogWith (.apply 0 [.var 0, .var 0])

def squaring : Catalog := catalogWith (.apply 1 [.var 0, .var 0])

/-- What a request over a catalog makes of a candidate for an integer function. -/
def found (c : Catalog) (term : Term) (examples : List Example) : Program :=
  Request.program ⟨.standard, true, c.table, examples, ⟨⟨[.int], .int⟩, examples.length, 0⟩⟩
    Strategy.enumerative.name ⟨term, term.size c.table, true⟩

/-- A program that does not reach `f` may come from a catalog with another `f`. -/
theorem promoted_eval_sum :
    let s := bare squaring .standard .instant
    let p := found doubling (.apply 0 [.var 0, .apply 1 [.var 0, .var 0]])
      [⟨[.int 1], .int 2⟩, ⟨[.int 2], .int 6⟩]
    ∃ s', s.perform (promote p) = (.ok true, s') ∧
      (∀ id ∈ p.table.reach (p.term.primitives ++ [Value.int 3].flatMap Value.primitives),
        ∃ q, p.table.get? id = some q ∧ s.catalog.table.get? id = some q) ∧
      (s'.catalog.table.machine p.limits).eval p.term [.int 3] = p.call [.int 3] := by
  intro s p
  have hpromote := perform_promote_admitted (s := s) (p := p) (by decide +kernel)
    (by decide +kernel) (by decide +kernel) (by decide +kernel) (by decide +kernel)
  have hsame : ∀ id ∈ p.table.reach (p.term.primitives ++ [Value.int 3].flatMap Value.primitives),
      ∃ q, p.table.get? id = some q ∧ s.catalog.table.get? id = some q := by
    have hreach : p.table.reach (p.term.primitives ++ [Value.int 3].flatMap Value.primitives) =
        [0, 1] := by decide +kernel
    rw [hreach]
    simp only [List.forall_mem_cons]
    exact ⟨⟨_, rfl, rfl⟩, ⟨_, rfl, rfl⟩, by simp⟩
  exact ⟨_, hpromote, hsame, promoted_eval hpromote hsame⟩

/-- Fourfold where it was found, the program is the fourth power in the session that accepts it. -/
theorem promoted_differs :
    let s := bare squaring .standard .instant
    let p := found doubling (.apply 2 [.apply 2 [.var 0]])
      [⟨[.int 0], .int 0⟩, ⟨[.int 1], .int 4⟩, ⟨[.int 3], .int 12⟩]
    doubling.Grown ∧ squaring.Grown ∧
    ∃ s', s.perform (promote p) = (.ok true, s') ∧
      p.call [.int 3] = .ok (.int 12) ∧
      (s'.catalog.table.machine p.limits).eval p.term [.int 3] = .ok (.int 81) := by
  intro s p
  have hpromote := perform_promote_admitted (s := s) (p := p) (by decide +kernel)
    (by decide +kernel) (by decide +kernel) (by decide +kernel) (by decide +kernel)
  exact ⟨grown_catalogWith (by decide) (by decide +kernel), grown_catalogWith (by decide)
    (by decide +kernel), _, hpromote, by decide +kernel, by decide +kernel⟩

end Session

end Exemplar
