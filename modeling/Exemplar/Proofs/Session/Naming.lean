import Exemplar.Proofs.Catalog.History
import Exemplar.Proofs.Session.Returned

/-!
# The name of a promoted program

**Whatever names the primitives of a catalog have, the search for the next name ends, and no promotion is
refused for the name that it found** (`capability_named`).

A promotion is refused for the origin of the program, for its verification or for its type, and then it
leaves the session as it was (`promote_eq_error`). The catalog would refuse a name that is taken, but it is
offered the one that it proposes itself (`Catalog.find?_freeName`).
-/

namespace Exemplar

namespace Session

variable {s s' : Session} {p : Program} {e : Error}

/-! ## Errors of promotions -/

/-- Why a promotion is refused. The origin of the program is looked at first, then its verification. -/
inductive Declines (s : Session) (p : Program) : Error → Prop
  | foreign (h : p.table.continuedBy s.catalog.table = false) : Declines s p .foreignProgram
  | unverified {cause : Shortfall} (hlineage : p.table.continuedBy s.catalog.table = true)
    (h : p.require = .error cause) : Declines s p (.shortfall cause)
  | mistyped {e : Error} (hlineage : p.table.continuedBy s.catalog.table = true)
    (hrequire : p.require = .ok ())
    (h : s.catalog.Mistyped s.catalog.freeName p.signature p.term e) : Declines s p e

theorem promote_eq_error :
    s.perform (promote p) = (.error e, s') ↔ s.Declines p e ∧ s' = s := by
  rw [perform_promote]
  constructor
  · intro h
    split at h
    · rename_i hlineage
      cases h
      exact ⟨.foreign hlineage, rfl⟩
    · rename_i hlineage hrequire
      cases h
      exact ⟨.unverified hlineage hrequire, rfl⟩
    · rename_i hlineage hrequire
      split at h
      · rename_i hregister
        cases h
        exact ⟨.mistyped hlineage hrequire (Catalog.register_freeName_eq_error.mp hregister), rfl⟩
      · cases h
      · cases h
  · rintro ⟨hdeclines, rfl⟩
    cases hdeclines with
    | foreign h => rw [h]
    | unverified hlineage h => rw [hlineage, h]
    | mistyped hlineage hrequire h =>
      rw [hlineage, hrequire, Catalog.register_freeName_eq_error.mpr h]

theorem Declines.kind_ne (h : s.Declines p e) : e.kind ≠ .duplicateName := by
  cases h with
  | foreign _ => exact nofun
  | @unverified cause _ _ =>
    rcases Error.kind_shortfall cause with hkind | hkind <;> rw [hkind] <;> exact nofun
  | mistyped _ _ h => rcases h.kind with hkind | hkind <;> rw [hkind] <;> exact nofun

/-! ## Names of capabilities -/

/-- **A capability always gets a fresh name.** The search for it ends, after one lookup more than there are
primitives at the latest, with a name that no primitive has. So no promotion is refused because a name is
taken. -/
theorem capability_named (c : Catalog) :
    (∃ lookups ≤ c.size + 1, c.search (c.learned.length + 1, 0) = Part.some (c.freeName, lookups)) ∧
      c.freeName ∉ c.names ∧
      ∀ s : Session, s.catalog = c → ∀ p e, (s.perform (promote p)).1 = .error e →
        e.kind ≠ .duplicateName := by
  refine ⟨c.search_freeName, Catalog.find?_eq_none_iff.mp c.find?_freeName, ?_⟩
  intro s _ p e h
  have hrefused : s.perform (promote p) = (.error e, (s.perform (promote p)).2) := Prod.ext h rfl
  exact (promote_eq_error.mp hrefused).1.kind_ne

/-- The names that come next are taken, in any order. The search needs as many lookups as it ever can. An
identity that was not verified is refused, but not for its name; verified, it gets the name. -/
theorem capability_named_taken :
    let os : List Catalog.Offer := [
      ⟨"learned_4", ⟨[], .int⟩, .lit (.int 1), 1⟩,
      ⟨"learned_3", ⟨[], .int⟩, .lit (.int 2), 1⟩]
    let c := (Catalog.ofBuiltins [] 64 .standard).offerAll os
    let s := bare c .standard .instant
    let p := found c (.var 0) [⟨[.int 1], .int 1⟩]
    c.Grown ∧ c.names = ["learned_4", "learned_3"] ∧
      c.search (c.learned.length + 1, 0) = Part.some ("learned_5", c.size + 1) ∧
      c.freeName = "learned_5" ∧ c.freeName ∉ c.names ∧
      (∃ e, (s.perform (promote { p with certificate := none })).1 = .error e ∧
        e.kind ≠ .duplicateName) ∧
      ∃ s', s.perform (promote p) = (.ok true, s') ∧
        s'.catalog.names = ["learned_4", "learned_3", "learned_5"] := by
  intro os c s p
  have hc : c.Grown := (Catalog.grown_ofBuiltins _ _ _).offerAll os
  have hnames : c.names = ["learned_4", "learned_3"] := by decide +kernel
  have hname : c.freeName = "learned_5" := by decide +kernel
  obtain ⟨-, hfresh, hnever⟩ := capability_named c
  have hsearch : c.search (3, 0) = Part.some ("learned_5", 3) := by
    rw [Catalog.search_of_taken (by decide +kernel), Catalog.search_of_taken (by decide +kernel)]
    exact Catalog.search_of_free (by decide +kernel) 2
  have hdeclines : s.Declines { p with certificate := none } (.shortfall (.neverChecked p.rendering)) :=
    .unverified (by decide +kernel) rfl
  have hrefused := congrArg Prod.fst (promote_eq_error.mpr ⟨hdeclines, rfl⟩)
  have hpromote := perform_promote_admitted (s := s) (p := p) (by decide +kernel)
    (by decide +kernel) (by decide +kernel) (by decide +kernel) (by decide +kernel)
  exact ⟨hc, hnames, hsearch, hname, hfresh, ⟨_, hrefused, hnever s rfl _ _ hrefused⟩, _, hpromote,
    by decide +kernel⟩

end Session

end Exemplar
