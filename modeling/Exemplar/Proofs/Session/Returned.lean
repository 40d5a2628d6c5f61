import Exemplar.Proofs.Catalog.Naming
import Exemplar.Proofs.Enumeration.Soundness
import Exemplar.Proofs.Session.Request

/-!
# Programs that a session returned

**A program that a session returned can be promoted in every later session if it is verified, and is
refused without a trace if it is not** (`returned_promotable`), whatever happened in between.

When a program is returned, its table is that of the session, and if it is verified it has its declared
type there. Both outlast everything that can happen to a session, because nothing ever changes a catalog
but offers to it (`Later.grows`). So the lineage of the program is found to be in order, the check of its
body succeeds, and the name that is proposed for it is free (`Catalog.find?_freeName`).
-/

namespace Exemplar

/-! ## Lineage -/

namespace Table

variable {t u u' : Table}

theorem continuedBy_iff : t.continuedBy u = true ↔
    t.size ≤ u.size ∧ ∀ p ∈ t.toList, ∃ q, u.get? p.id = some q ∧ q.name = p.name := by
  simp [continuedBy, Option.any_eq_true]

theorem continuedBy_refl (ht : t.Indexed) : t.continuedBy t = true :=
  continuedBy_iff.mpr ⟨Nat.le_refl _, fun p hp => ⟨p, ht.get?_id hp, rfl⟩⟩

theorem continuedBy_extends (h : t.continuedBy u = true) (hu : u.Extends u') :
    t.continuedBy u' = true := by
  obtain ⟨hsize, hnames⟩ := continuedBy_iff.mp h
  refine continuedBy_iff.mpr ⟨hsize.trans hu.size_le, fun p hp => ?_⟩
  obtain ⟨q, hget, hname⟩ := hnames p hp
  exact ⟨q, hu _ q hget, hname⟩

end Table

/-! ## Shortfalls -/

theorem Error.kind_shortfall (cause : Shortfall) :
    (Error.shortfall cause).kind = .verificationFailed ∨
      (Error.shortfall cause).kind = .nonTerminationSuspected := by
  cases cause with
  | suspectedNonTermination detail => exact .inr rfl
  | notVerified verdict counterexample => exact .inl rfl
  | neverChecked program => exact .inl rfl

theorem Certificate.require_of_verified {c : Certificate} (h : c.verified = true) :
    c.require = .ok () := by
  rw [require, if_pos h]

theorem Certificate.require_of_unverified {c : Certificate} (h : c.verified = false) :
    ∃ cause, c.require = .error cause := by
  rw [require, if_neg (by simp [h])]
  split
  · exact ⟨_, rfl⟩
  · exact ⟨_, rfl⟩

namespace Program

variable {p : Program}

theorem require_of_verified (h : p.verified = true) : p.require = .ok () := by
  rw [verified] at h
  rw [require]
  cases hcertificate : p.certificate with
  | none =>
    rw [hcertificate] at h
    cases h
  | some c =>
    rw [hcertificate] at h
    exact Certificate.require_of_verified h

theorem require_of_unverified (h : p.verified = false) : ∃ cause, p.require = .error cause := by
  rw [verified] at h
  rw [require]
  cases hcertificate : p.certificate with
  | none => exact ⟨_, rfl⟩
  | some c =>
    rw [hcertificate] at h
    exact Certificate.require_of_unverified h

end Program

namespace Session

variable {s s' : Session} {p : Program}

/-! ## Promotion of native programs -/

def promoted (s : Session) (p : Program) : Bool → Session
  | true =>
    { s with
      catalog := s.catalog.append s.catalog.freeName p.signature p.term capabilityCost
      tally.admitted := s.tally.admitted + 1 }
  | false => { s with tally.duplicates := s.tally.duplicates + 1 }

theorem promote_eq_ok {admitted : Bool} (h : s.perform (promote p) = (.ok admitted, s')) :
    s' = s.promoted p admitted := by
  rw [perform_promote] at h
  split at h
  · cases h
  · cases h
  · split at h
    · cases h
    · rename_i hregister
      obtain ⟨-, -, -, rfl⟩ := Catalog.register_eq_admitted.mp hregister
      obtain ⟨hanswer, rfl⟩ := Prod.mk.inj h
      obtain rfl := Except.ok.inj hanswer
      rfl
    · obtain ⟨hanswer, rfl⟩ := Prod.mk.inj h
      obtain rfl := Except.ok.inj hanswer
      rfl

/-- A program continues the lineage of a session, and has its declared type there if it is verified. -/
structure Native (s : Session) (p : Program) : Prop where
  lineage : p.table.continuedBy s.catalog.table = true
  typed : p.verified = true →
    p.term.infer s.catalog.table p.signature.params = .ok p.signature.ret

theorem Native.extends (h : s.Native p) (hextends : s.catalog.table.Extends s'.catalog.table) :
    s'.Native p where
  lineage := Table.continuedBy_extends h.lineage hextends
  typed hverified := Term.infer_extends hextends (h.typed hverified)

theorem Native.perform_promote_of_verified (h : s.Native p) (hverified : p.verified = true) :
    ∃ admitted, s.perform (promote p) = (.ok admitted, s.promoted p admitted) := by
  have hrequire := Program.require_of_verified hverified
  have hfree := s.catalog.find?_freeName
  have hinfer := h.typed hverified
  cases hfind : s.catalog.findEquivalent? p.signature p.term with
  | none => exact ⟨true, perform_promote_admitted h.lineage hrequire hfree hinfer hfind⟩
  | some existing =>
    have hregister : s.catalog.register s.catalog.freeName p.signature p.term capabilityCost =
        .ok (.duplicate existing, s.catalog) :=
      Catalog.register_eq_ok.mpr ⟨⟨hfree, hinfer⟩, .inl ⟨existing, hfind, rfl, rfl⟩⟩
    refine ⟨false, ?_⟩
    rw [perform_promote, h.lineage, hrequire, hregister]
    rfl

theorem Native.perform_promote_of_unverified (h : s.Native p) (hunverified : p.verified = false) :
    ∃ cause, s.perform (promote p) = (.error (.shortfall cause), s) := by
  obtain ⟨cause, hrequire⟩ := Program.require_of_unverified hunverified
  refine ⟨cause, ?_⟩
  rw [perform_promote, h.lineage, hrequire]

/-- What the promotion of a program comes to in a session. -/
structure Promotes (s : Session) (p : Program) : Prop where
  verified : p.verified = true → ∃ admitted s', s.perform (promote p) = (.ok admitted, s')
  /-- One primitive is appended, under a name that none had, and counted. -/
  admitted : ∀ s', s.perform (promote p) = (.ok true, s') →
    s' = { s with
      catalog := { s.catalog with table := s'.catalog.table }
      tally.admitted := s.tally.admitted + 1 } ∧
    ∃ name, name ∉ s.catalog.names ∧ s'.catalog.table.toList =
      s.catalog.table.toList ++ [⟨s.catalog.size, name, p.signature, .learned p.term, 1⟩]
  duplicate : ∀ s', s.perform (promote p) = (.ok false, s') →
    s' = { s with tally.duplicates := s.tally.duplicates + 1 }
  /-- The promotion is refused for the verification alone, and nothing is changed. -/
  refused : p.verified = false → ∃ e, s.perform (promote p) = (.error e, s) ∧
    (e.kind = .verificationFailed ∨ e.kind = .nonTerminationSuspected)

theorem Native.promotes (h : s.Native p) : s.Promotes p := by
  constructor
  case verified =>
    intro hverified
    obtain ⟨admitted, hpromote⟩ := h.perform_promote_of_verified hverified
    exact ⟨admitted, _, hpromote⟩
  case admitted =>
    intro s' hpromote
    obtain rfl := promote_eq_ok hpromote
    have hfree := Catalog.find?_eq_none_iff.mp s.catalog.find?_freeName
    exact ⟨rfl, s.catalog.freeName, hfree, Table.toList_push _ _⟩
  case duplicate => exact fun s' hpromote => promote_eq_ok hpromote
  case refused =>
    intro hunverified
    obtain ⟨cause, hpromote⟩ := h.perform_promote_of_unverified hunverified
    exact ⟨_, hpromote, Error.kind_shortfall cause⟩

/-! ## Returned programs -/

theorem infer_of_verified {q : Request} {name : String} {c : Candidate}
    (h : (q.program name c).verified = true) :
    c.term.infer q.table q.features.signature.params = .ok q.features.signature.ret := by
  rw [Program.verified, Request.program] at h
  by_cases hverify : q.verify = true
  · simp only [if_pos hverify] at h
    exact (Verification.admissible_iff.mp (Verification.verify_graded.admissible_of_verified h)).2
  · simp [if_neg hverify] at h

theorem native_of_answer (hproper : s.catalog.Proper) {q : Request}
    (htable : q.table = s.catalog.table)
    (h : (q.collect s.timing (s.trials q)).answer = some p) : s.Native p := by
  obtain ⟨t, -, c, -, rfl⟩ := exists_of_answer h
  refine ⟨?_, fun hverified => ?_⟩
  · show q.table.continuedBy s.catalog.table = true
    rw [htable]
    exact Table.continuedBy_refl hproper.indexed
  · rw [← htable]
    exact infer_of_verified hverified

theorem perform_request_valid {settings : Settings} (hvalid : settings.validate = .ok ())
    {examples : List Example} {features : Features}
    (hfeatures : Features.ofExamples examples = .ok features) (hs : s.Staffed) (verify : Bool)
    (table : Table) :
    let q : Request := ⟨settings, verify, table, examples, features⟩
    s.perform (request settings verify table examples) =
      (.ok (q.collect s.timing (s.trials q)).answer, s.answered q) := by
  rw [perform_request hs, hvalid, hfeatures]

theorem request_eq_ok (hs : s.Staffed) {settings : Settings} {verify : Bool} {table : Table}
    {examples : List Example} {answer : Option Program}
    (h : s.perform (request settings verify table examples) = (.ok answer, s')) :
    ∃ features, settings.validate = .ok () ∧ Features.ofExamples examples = .ok features ∧
      let q : Request := ⟨settings, verify, table, examples, features⟩
      (q.collect s.timing (s.trials q)).answer = answer ∧ s' = s.answered q := by
  rw [perform_request hs] at h
  split at h
  · cases h
  · cases h
  · rename_i features hvalid hfeatures
    obtain ⟨hanswer, rfl⟩ := Prod.mk.inj h
    exact ⟨features, hvalid, hfeatures, Except.ok.inj hanswer, rfl⟩

/-- A request to a session is answered with a program, and leaves a session behind. -/
def Returns (s : Session) (p : Program) (s' : Session) : Prop :=
  (∃ examples verify, s.perform (solve examples verify) = (.ok (some p), s')) ∨
    ∃ examples overrides, s.perform (synthesize examples overrides) = (.ok (some p), s')

theorem native_of_request (hs : s.Staffed) (hproper : s.catalog.Proper) {settings : Settings} {verify : Bool}
    {examples : List Example}
    (h : s.perform (request settings verify s.catalog.table examples) = (.ok (some p), s')) :
    s'.Native p := by
  obtain ⟨features, -, -, hanswer, rfl⟩ := request_eq_ok hs h
  have hnative : s.Native p := native_of_answer hproper rfl hanswer
  exact hnative.extends fun _ _ hget => hget

theorem Returns.native (h : s.Returns p s') (hs : s.Staffed) (hproper : s.catalog.Proper) :
    s'.Native p := by
  rcases h with ⟨examples, verify, h⟩ | ⟨examples, overrides, h⟩
  · rw [perform_solve] at h
    exact native_of_request hs hproper h
  · rw [perform_synthesize] at h
    exact native_of_request hs hproper h

theorem Returns.leads (h : s.Returns p s') (hs : s.Staffed) : s.Leads s' := by
  rcases h with ⟨examples, verify, h⟩ | ⟨examples, overrides, h⟩
  · have hsolve := leads_solve hs examples verify
    rwa [h] at hsolve
  · have hsynthesize := leads_synthesize hs examples overrides
    rwa [h] at hsynthesize

/-! ## Later sessions -/

theorem Step.grows (h : Step s s') : s.catalog.Grows s'.catalog := by
  cases h with
  | answered _ => exact .refl
  | admitted _ _ hregister => exact .single ⟨_, _, _, _, _, hregister⟩
  | duplicate => exact .refl

theorem Leads.grows (h : s.Leads s') : s.catalog.Grows s'.catalog := by
  induction h with
  | refl => exact .refl
  | tail _ hstep ih => exact ih.trans hstep.grows

/-- What may happen to a session: a strategy is added, or something is asked of it. -/
inductive Next (s : Session) : Session → Prop
  | extended (k : Strategy) : Next s (s.addStrategy k)
  | called (c : Call) : Next s (s.perform c.op).2

/-- Anything may have happened between two sessions. -/
abbrev Later : Session → Session → Prop := Relation.ReflTransGen Next

theorem catalog_addStrategy (s : Session) (k : Strategy) : (s.addStrategy k).catalog = s.catalog := by
  rw [addStrategy]
  split <;> rfl

theorem catalog_ofCatalog {catalog : Catalog} {settings : Settings} {timing : Timing}
    (h : ofCatalog catalog settings timing = .ok s) : s.catalog = catalog := by
  obtain ⟨-, -, rfl⟩ := ofCatalog_eq_ok.mp h
  simp [Strategy.standard, catalog_addStrategy, bare]

theorem Next.staffed (h : s.Next s') (hs : s.Staffed) : s'.Staffed := by
  cases h with
  | extended k => exact hs.addStrategy k
  | called c => exact (leads_call hs c).staffed hs

theorem Next.grows (h : s.Next s') (hs : s.Staffed) : s.catalog.Grows s'.catalog := by
  cases h with
  | extended k =>
    rw [catalog_addStrategy]
    exact .refl
  | called c => exact (leads_call hs c).grows

theorem Later.staffed (h : s.Later s') (hs : s.Staffed) : s'.Staffed := by
  induction h with
  | refl => exact hs
  | tail _ hnext ih => exact hnext.staffed ih

theorem Later.grows (h : s.Later s') (hs : s.Staffed) : s.catalog.Grows s'.catalog := by
  induction h with
  | refl => exact .refl
  | tail hbefore hnext ih => exact ih.trans (hnext.grows (Later.staffed hbefore hs))

/-! ## The first answer of a session -/

theorem answer_of_first {q : Request} {k : Strategy} {rest : List Strategy} {c : Candidate}
    (hfirst : (s.learner.rank q.features.bucket).1.filterMap s.strategy? = k :: rest)
    (hreturned : (q.trial s.timing s.tally.strategyAttempts k).returned = .ok c)
    (haccepted : Request.accepts c (q.program k.name c) = true) :
    (q.collect s.timing (s.trials q)).answer = some (q.program k.name c) := by
  have hsucceeds : (q.trial s.timing s.tally.strategyAttempts k).succeeds q = true := by
    rw [Trial.succeeds, Trial.status, hreturned]
    show (q.statusOf c (q.program k.name c)).success = true
    rw [Request.statusOf, if_pos haccepted]
    rfl
  have hmem : q.trial s.timing s.tally.strategyAttempts k ∈ s.trials q := by
    rw [trials, hfirst, Request.course_of_success hsucceeds]
    exact List.mem_singleton_self _
  exact (answer_of_success hmem hsucceeds hreturned).2

theorem tracks_ofCatalog {catalog : Catalog} {settings : Settings} {timing : Timing}
    (h : ofCatalog catalog settings timing = .ok s) :
    s.learner.tracks = [⟨"enumerative", []⟩, ⟨"genetic", []⟩] := by
  obtain ⟨-, -, rfl⟩ := ofCatalog_eq_ok.mp h
  rfl

theorem first_ofCatalog {catalog : Catalog} {settings : Settings} {timing : Timing}
    (h : ofCatalog catalog settings timing = .ok s) (bucket : Bucket) :
    (s.learner.rank bucket).1.filterMap s.strategy? = Strategy.standard := by
  have htracks := tracks_ofCatalog h
  have hnone : ∀ t ∈ s.learner.tracks, t.records = [] := by
    rw [htracks]
    simp
  rw [Learner.rank_untried hnone, Learner.strategies, htracks]
  obtain ⟨-, -, rfl⟩ := ofCatalog_eq_ok.mp h
  rfl

theorem returns_ofCatalog {catalog : Catalog} {settings : Settings} {timing : Timing}
    (h : ofCatalog catalog settings timing = .ok s) {examples : List Example} {features : Features}
    (hfeatures : Features.ofExamples examples = .ok features) {c : Candidate}
    (hattempt : Strategy.enumerative.attempt (timing.clock 0 settings.timeBudget) catalog.table
      settings examples = .ok c) (verify : Bool) :
    let q : Request := ⟨settings, verify, catalog.table, examples, features⟩
    Request.accepts c (q.program Strategy.enumerative.name c) = true →
      s.Returns (q.program Strategy.enumerative.name c) (s.answered q) := by
  intro q haccepted
  have hfirst := first_ofCatalog h q.features.bucket
  have hstaffed : s.Staffed := (Reachable.created h).staffed
  obtain ⟨hvalid, -, rfl⟩ := ofCatalog_eq_ok.mp h
  have hanswer := answer_of_first hfirst hattempt haccepted
  refine .inl ⟨examples, verify, ?_⟩
  rw [perform_solve]
  refine (perform_request_valid hvalid hfeatures hstaffed verify catalog.table).trans ?_
  rw [hanswer]

/-! ## Promotion later -/

/-- **Returned programs stay promotable.** -/
theorem returned_promotable {catalog : Catalog} (hc : catalog.Grown) {settings : Settings}
    {timing : Timing} {s₀ s s' s'' : Session} {p : Program}
    (h : ofCatalog catalog settings timing = .ok s₀) (hs : s₀.Later s) (hp : s.Returns p s')
    (hs' : s'.Later s'') : s''.Promotes p := by
  have hstaffed₀ : s₀.Staffed := (Reachable.created h).staffed
  have hstaffed : s.Staffed := hs.staffed hstaffed₀
  have hgrown : s.catalog.Grown := (catalog_ofCatalog h ▸ hc).grows (hs.grows hstaffed₀)
  have hnative : s'.Native p := hp.native hstaffed hgrown.proper
  have hlater := hs'.grows ((hp.leads hstaffed).staffed hstaffed)
  exact (hnative.extends hlater.extends).promotes

/-- A choice is asked for with and without verification. The first answer is verified; it can be promoted
after the session has learned it and got another strategy. The second one is refused. -/
theorem returned_promotable_choice :
    let catalog := Catalog.ofBuiltins [.cond] 64 .standard
    let settings : Settings :=
      { Settings.standard with intConstants := [1, 2], maxSize := 5, maxCandidates := 100 }
    let examples : List Example := [⟨[.bool true], .int 1⟩, ⟨[.bool false], .int 2⟩]
    ∃ s₀ s₁ s₂ p₁ p₂, catalog.Grown ∧ ofCatalog catalog settings .instant = .ok s₀ ∧
      (s₀.Returns p₁ s₁ ∧ p₁.verified = true ∧
        ((s₁.perform (Call.learn [examples]).op).2.addStrategy stubborn).Promotes p₁) ∧
      (s₀.Returns p₂ s₂ ∧ p₂.verified = false ∧
        (s₂.perform (Call.promote p₁).op).2.Promotes p₂) := by
  intro catalog settings examples
  have hc : catalog.Grown := Catalog.grown_ofBuiltins _ _ _
  have hsettings : settings.validate = .ok () := by decide +kernel
  have hcreated : ofCatalog catalog settings .instant =
      .ok (Strategy.standard.foldl addStrategy (bare catalog settings .instant)) :=
    ofCatalog_eq_ok.mpr ⟨hsettings, by decide, rfl⟩
  have hfeatures : Features.ofExamples examples = .ok ⟨⟨[.bool], .int⟩, 2, 2⟩ := rfl
  have hclock : Timing.instant.clock 0 settings.timeBudget = fun _ => false := rfl
  have hattempt : Strategy.enumerative.attempt (Timing.instant.clock 0 settings.timeBudget)
      catalog.table settings examples =
        .ok ⟨.apply 0 [.var 0, .lit (.int 1), .lit (.int 2)], 5, true⟩ := by
    rw [hclock]
    exact congrArg (· >>= Strategy.ofEnumeration) Enumeration.run_conditional
  have hchecked := returns_ofCatalog hcreated hfeatures hattempt true (by decide +kernel)
  have hunchecked := returns_ofCatalog hcreated hfeatures hattempt false rfl
  refine ⟨_, _, _, _, _, hc, hcreated, ⟨hchecked, by decide +kernel, ?_⟩, ⟨hunchecked, rfl, ?_⟩⟩
  · exact returned_promotable hc hcreated .refl hchecked
      ((Relation.ReflTransGen.single (.called _)).tail (.extended stubborn))
  · exact returned_promotable hc hcreated .refl hunchecked (.single (.called _))

end Session

end Exemplar
