import Exemplar.Proofs.Session.Candidate
import Exemplar.Proofs.Session.Returned

/-!
# Refused requests

A request is refused for its settings or for its examples, before the session changes in any way, and for
no other reason. Errors of strategies are entered into the journal and do not reach the caller, and the
learner, which would end a request by refusing a report, takes every report (`perform_pursue`).
-/

namespace Exemplar

/-- The settings with some of them replaced, if there are overrides at all. -/
def Settings.overrideWith (s : Settings) : Option Overrides → Settings
  | none => s
  | some o => s.override o

theorem Settings.overrideWith_eq (s : Settings) (o : Option Overrides) :
    s.overrideWith o = s.override (o.getD .empty) := by
  cases o <;> rfl

namespace Session

variable {s : Session} {q : Request}

/-! ## Refusals -/

theorem ofExamples_eq_error {examples : List Example} {c : ProblemError} :
    Features.ofExamples examples = .error c ↔ Problem.signature examples = .error c := by
  rw [Features.ofExamples]
  cases Problem.signature examples <;> simp [bind, Except.bind, pure, Except.pure]

/-- Why a request under some settings is refused. The settings are looked at first. -/
inductive Refuses (settings : Settings) (examples : List Example) : Error → Prop
  | settings {c : SettingsError} (h : settings.validate = .error c) :
    Refuses settings examples (.settings c)
  | problem {c : ProblemError} (hvalid : settings.validate = .ok ())
    (h : Problem.signature examples = .error c) : Refuses settings examples (.problem c)

/-- A request is screened: it is refused for its settings or its examples, with an error of the caller's
and without a trace, or else it is answered. -/
structure Screens (s : Session) (settings : Settings) (examples : List Example)
    (r : Except Error (Option Program) × Session) : Prop where
  refused_iff : (∃ e, r.1 = .error e) ↔
    (∃ c, settings.validate = .error c) ∨ ∃ c, Problem.signature examples = .error c
  cause : ∀ e, r.1 = .error e → Refuses settings examples e
  fatal : ∀ e, r.1 = .error e → e.fatal = true
  untouched : ∀ e, r.1 = .error e → r.2 = s
  answered_iff : (∃ answer, r.1 = .ok answer) ↔
    settings.validate = .ok () ∧ ∃ signature, Problem.signature examples = .ok signature
  /-- Errors of strategies, whatever their kind, are no errors of the request. -/
  failed : (∀ k ∈ s.strategies, ∀ clock, ∃ e, k.attempt clock s.catalog.table settings examples =
    .error e) → ∀ answer, r.1 = .ok answer → answer = none

variable {settings : Settings} {examples : List Example}

theorem screens_of_refused {e : Error} (h : Refuses settings examples e) :
    Screens s settings examples (.error e, s) := by
  constructor
  case refused_iff =>
    refine ⟨fun _ => ?_, fun _ => ⟨e, rfl⟩⟩
    cases h with
    | settings h => exact .inl ⟨_, h⟩
    | problem _ h => exact .inr ⟨_, h⟩
  case cause =>
    rintro _ ⟨⟩
    exact h
  case fatal =>
    rintro _ ⟨⟩
    cases h <;> rfl
  case untouched => exact fun _ _ => rfl
  case answered_iff =>
    cases h with
    | settings h => simp [h]
    | problem _ h => simp [h]
  case failed => rintro _ _ ⟨⟩

theorem screens_of_answered {answer : Option Program} {s' : Session} {signature : Signature}
    (hvalid : settings.validate = .ok ()) (hsignature : Problem.signature examples = .ok signature)
    (hfailed : (∀ k ∈ s.strategies, ∀ clock, ∃ e, k.attempt clock s.catalog.table settings examples =
      .error e) → answer = none) : Screens s settings examples (.ok answer, s') := by
  constructor
  case refused_iff => simp [hvalid, hsignature]
  case cause => rintro _ ⟨⟩
  case fatal => rintro _ ⟨⟩
  case untouched => rintro _ ⟨⟩
  case answered_iff => exact ⟨fun _ => ⟨hvalid, signature, hsignature⟩, fun _ => ⟨answer, rfl⟩⟩
  case failed =>
    rintro hall _ ⟨⟩
    exact hfailed hall

theorem answer_of_failed (hfailed : ∀ k ∈ s.strategies, ∀ clock,
    ∃ e, k.attempt clock q.table q.settings q.examples = .error e) :
    (q.collect s.timing (s.trials q)).answer = none := by
  by_contra hsome
  obtain ⟨p, hp⟩ := Option.ne_none_iff_exists'.mp hsome
  obtain ⟨t, ht, c, hreturned, -⟩ := exists_of_answer hp
  obtain ⟨hmem, hattempt⟩ := Request.mem_course ht
  obtain ⟨name, -, hname⟩ := List.mem_filterMap.mp hmem
  obtain ⟨e, he⟩ := hfailed t.strategy (List.mem_of_find?_eq_some hname) _
  rw [hattempt, he] at hreturned
  cases hreturned

theorem screens_request (hs : s.Staffed) (settings : Settings) (verify : Bool)
    (examples : List Example) :
    Screens s settings examples (s.perform (request settings verify s.catalog.table examples)) := by
  rw [perform_request hs]
  split
  · rename_i c hvalid
    exact screens_of_refused (.settings hvalid)
  · rename_i c hvalid hfeatures
    exact screens_of_refused (.problem hvalid (ofExamples_eq_error.mp hfeatures))
  · rename_i features hvalid hfeatures
    let q : Request := ⟨settings, verify, s.catalog.table, examples, features⟩
    exact screens_of_answered hvalid (Features.signature_of_ofExamples hfeatures)
      (answer_of_failed (q := q))

/-- **Only errors of the caller escape from a request, and they leave no trace.** In every session that can
come about, whatever its strategies return, `solve` and `synthesize` screen their requests. A report of a
strategy that the learner does not know would be a further reason, but none is ever made. -/
theorem requests_screened {s : Session} (hs : s.Reachable) (examples : List Example) :
    (∀ verify, Screens s s.settings examples (s.perform (solve examples verify))) ∧
    ∀ o : Option Overrides,
      Screens s (s.settings.overrideWith o) examples
        (s.perform (synthesize examples (o.getD .empty))) := by
  refine ⟨fun verify => ?_, fun o => ?_⟩
  · rw [perform_solve]
    exact screens_request hs.staffed s.settings verify examples
  · rw [perform_synthesize, Settings.overrideWith_eq]
    exact screens_request hs.staffed _ true examples

/-- A strategy that blames the caller for every problem. -/
def broken : Strategy := ⟨"broken", fun _ _ _ _ => .error (.reported .invalidConfiguration "no")⟩

/-- A session with this strategy: it refuses an empty problem and a size of zero, and answers a request in
order, although the strategy returns errors that would be fatal. -/
theorem requests_screened_broken :
    let examples : List Example := [⟨[.int 1], .int (-1)⟩]
    let sizeless : Overrides := ⟨some 0, none, none, none⟩
    ∃ s : Session, s.Reachable ∧ s.strategies = Strategy.standard ++ [broken] ∧
      (∀ clock t settings, ∃ e, broken.attempt clock t settings examples = .error e ∧
        e.fatal = true) ∧
      (∃ e, s.perform (solve [] true) = (.error e, s) ∧ e.fatal = true) ∧
      (∃ e, s.perform (synthesize examples sizeless) = (.error e, s) ∧ e.fatal = true) ∧
      ∃ answer, (s.perform (synthesize examples .empty)).1 = .ok answer := by
  intro examples sizeless
  let catalog := Catalog.ofBuiltins [.neg] 64 .standard
  have hsettings : Settings.standard.validate = .ok () := by decide +kernel
  have hcreated : ofCatalog catalog .standard .instant =
      .ok (Strategy.standard.foldl addStrategy (bare catalog .standard .instant)) :=
    ofCatalog_eq_ok.mpr ⟨hsettings, by decide, rfl⟩
  have hs := (Reachable.created hcreated).extended broken
  obtain ⟨hsolve, -⟩ := requests_screened hs []
  obtain ⟨-, hsynthesize⟩ := requests_screened hs examples
  refine ⟨_, hs, rfl, fun _ _ _ => ⟨_, rfl, rfl⟩, ?_, ?_, ?_⟩
  · have hscreens := hsolve true
    obtain ⟨e, he⟩ := hscreens.refused_iff.mpr (.inr ⟨.noExamples, rfl⟩)
    exact ⟨e, Prod.ext he (hscreens.untouched e he), hscreens.fatal e he⟩
  · have hscreens := hsynthesize (some sizeless)
    obtain ⟨e, he⟩ := hscreens.refused_iff.mpr (.inl ⟨.notPositive "max_size", rfl⟩)
    exact ⟨e, Prod.ext he (hscreens.untouched e he), hscreens.fatal e he⟩
  · exact (hsynthesize none).answered_iff.mpr ⟨hsettings, ⟨[.int], .int⟩, rfl⟩

end Session

end Exemplar
