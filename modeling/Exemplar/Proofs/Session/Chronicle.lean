import Exemplar.Proofs.Session.Naming
import Mathlib.Data.List.TakeWhile

/-!
# What a session was asked

Every call poses queries, one after the other, until one of them is refused (`Call.posed`). **What
happens to a session in some calls is that exactly these queries are answered, in their order, with
promotions between them** (`chronicle_after`).

Nothing else ends a call early. The report of an attempt might be refused, but the learner knows the
strategies of the session (`Chronicle.staffed`). In a lesson a promotion that fails would end the call, but
a verified program that was just returned is always accepted (`Native.perform_promote_of_verified`).
-/

namespace Exemplar

/-! ## Queries -/

/-- A problem as it is posed to a session. -/
structure Query where
  settings : Settings
  verify : Bool
  examples : List Example

namespace Query

/-- Whether the settings and the examples are valid. All other queries are refused. -/
def valid (x : Query) : Bool := x.settings.validate.isOk && (Features.ofExamples x.examples).isOk

end Query

def Request.query (q : Request) : Query := ⟨q.settings, q.verify, q.examples⟩

namespace Call

/-- What a call asks of a session with some settings, if nothing is refused. -/
def queries (settings : Settings) : Call → List Query
  | .solve examples verify => [⟨settings, verify, examples⟩]
  | .synthesize examples overrides => [⟨settings.override overrides, true, examples⟩]
  | .promote _ => []
  | .learn problems => problems.map fun examples => ⟨settings, true, examples⟩
  | .demonstrate =>
    [⟨settings, true, Session.powers Session.targetExponent⟩] ++
      ((Session.curriculumExponents.map Session.powers).map fun examples => ⟨settings, true, examples⟩) ++
      [⟨settings, true, Session.powers Session.targetExponent⟩]

/-- The queries of a call up to the first that is refused. -/
def posed (settings : Settings) (c : Call) : List Query := (c.queries settings).takeWhile Query.valid

end Call

namespace Session

/-- The requests that were answered between two sessions, each with the session that answered it. -/
inductive Chronicle (s₀ : Session) : List (Session × Request) → Session → Prop
  | start : Chronicle s₀ [] s₀
  | answered {log : List (Session × Request)} {s : Session} {q : Request} (h : Chronicle s₀ log s)
    (hq : s.Poses q) : Chronicle s₀ (log ++ [(s, q)]) (s.answered q)
  | promoted {log : List (Session × Request)} {s : Session} {p : Program} {admitted : Bool}
    (h : Chronicle s₀ log s)
    (hpromote : s.perform (promote p) = (.ok admitted, s.promoted p admitted)) :
    Chronicle s₀ log (s.promoted p admitted)

variable {s₀ s s' : Session} {log log' : List (Session × Request)} {α β : Type}

namespace Chronicle

theorem trans (h : s₀.Chronicle log s) (h' : s.Chronicle log' s') :
    s₀.Chronicle (log ++ log') s' := by
  induction h' with
  | start => rwa [List.append_nil]
  | answered _ hq ih =>
    rw [← List.append_assoc]
    exact ih.answered hq
  | promoted _ hpromote ih => exact ih.promoted hpromote

theorem leads (h : s₀.Chronicle log s) : s₀.Leads s := by
  induction h with
  | start => exact .refl
  | answered _ hq ih => exact ih.tail (.answered hq)
  | promoted _ hpromote ih =>
    rename_i s p admitted _
    have hlast : s.Leads (s.promoted p admitted) := by
      have hleads := leads_promote (s := s) p
      rwa [hpromote] at hleads
    exact ih.trans hlast

theorem settings (h : s₀.Chronicle log s) : s.settings = s₀.settings := by
  induction h with
  | start => rfl
  | answered _ _ ih => exact ih
  | promoted _ _ ih =>
    rename_i admitted _ _
    cases admitted <;> exact ih

theorem staffed (h : s₀.Chronicle log s) (hs : s₀.Staffed) : s.Staffed := h.leads.staffed hs

theorem proper (h : s₀.Chronicle log s) (hproper : s₀.catalog.Proper) : s.catalog.Proper :=
  hproper.grows h.leads.grows

end Chronicle

/-! ## Operations that ask -/

/-- An operation asks queries, one after the other, up to the first that is refused, and it has an answer
if none is. -/
def Asks (s : Session) (x : Op α) (xs : List Query) : Prop :=
  ∃ log, s.Chronicle log (s.perform x).2 ∧
    log.map (fun r => r.2.query) = xs.takeWhile Query.valid ∧
    (s.perform x).1.isOk = xs.all Query.valid

theorem asks_pure (s : Session) (a : α) : s.Asks (pure a) [] := ⟨[], .start, rfl, rfl⟩

theorem asks_bind {x : Op α} {f : α → Op β} {xs ys : List Query} (hx : s.Asks x xs)
    (hf : ∀ a log s', s.perform x = (.ok a, s') → s.Chronicle log s' → s'.Asks (f a) ys) :
    s.Asks (x >>= f) (xs ++ ys) := by
  obtain ⟨log, hlog, hqueries, hok⟩ := hx
  rw [Asks, perform_bind]
  rcases hperform : s.perform x with ⟨r, s'⟩
  rw [hperform] at hlog hok
  cases r with
  | error e =>
    have hrefused : ¬ xs.all Query.valid = true := by simp [← hok, Except.isOk, Except.toBool]
    have hshort : (xs.takeWhile Query.valid).length ≠ xs.length := by
      intro hlength
      have hself := (List.takeWhile_prefix Query.valid).eq_of_length hlength
      exact hrefused (List.all_eq_true.mpr (List.takeWhile_eq_self_iff.mp hself))
    refine ⟨log, hlog, ?_, ?_⟩
    · rw [List.takeWhile_append, if_neg hshort, hqueries]
    · simp [List.all_append, hrefused, Except.isOk, Except.toBool]
  | ok a =>
    have hvalid : xs.all Query.valid = true := by simp [← hok, Except.isOk, Except.toBool]
    have hself : xs.takeWhile Query.valid = xs :=
      List.takeWhile_eq_self_iff.mpr (List.all_eq_true.mp hvalid)
    obtain ⟨log', hlog', hqueries', hok'⟩ := hf a log s' hperform hlog
    refine ⟨log ++ log', hlog.trans hlog', ?_, ?_⟩
    · rw [List.map_append, hqueries, hqueries', List.takeWhile_append, hself, if_pos rfl]
    · rw [List.all_append, hvalid, Bool.true_and, hok']

theorem asks_map {x : Op α} {xs : List Query} (hx : s.Asks x xs) (f : α → β) : s.Asks (f <$> x) xs := by
  obtain ⟨log, hlog, hqueries, hok⟩ := hx
  rw [Asks, perform_map]
  refine ⟨log, hlog, hqueries, ?_⟩
  rw [← hok]
  cases (s.perform x).1 <;> rfl

/-! ## Requests, lessons and demonstrations -/

theorem asks_request (hs : s.Staffed) {settings : Settings} {table : Table}
    (hsettings : settings = s.settings ∨ ∃ o, settings = s.settings.override o)
    (htable : table = s.catalog.table ∨ table = s.catalog.seedTable) (verify : Bool)
    (examples : List Example) :
    s.Asks (request settings verify table examples) [⟨settings, verify, examples⟩] := by
  rw [Asks, perform_request hs]
  cases hvalid : settings.validate with
  | error e =>
    have hrefused : Query.valid ⟨settings, verify, examples⟩ = false := by
      rw [Query.valid, hvalid]
      rfl
    exact ⟨[], .start, by simp [hrefused], by simp [hrefused, Except.isOk, Except.toBool]⟩
  | ok u =>
    cases hfeatures : Features.ofExamples examples with
    | error e =>
      have hrefused : Query.valid ⟨settings, verify, examples⟩ = false := by
        rw [Query.valid, hvalid, hfeatures]
        rfl
      exact ⟨[], .start, by simp [hrefused], by simp [hrefused, Except.isOk, Except.toBool]⟩
    | ok features =>
      have haccepted : Query.valid ⟨settings, verify, examples⟩ = true := by
        rw [Query.valid, hvalid, hfeatures]
        rfl
      have hposes : s.Poses ⟨settings, verify, table, examples, features⟩ :=
        ⟨hsettings, htable, hvalid, hfeatures⟩
      exact ⟨_, Chronicle.start.answered hposes, by simp [haccepted, Request.query],
        by simp [haccepted, Except.isOk, Except.toBool]⟩

theorem asks_solve (hs : s.Staffed) (examples : List Example) (verify : Bool) :
    s.Asks (solve examples verify) [⟨s.settings, verify, examples⟩] := by
  rw [Asks, perform_solve]
  exact asks_request hs (.inl rfl) (.inl rfl) verify examples

theorem asks_synthesize (hs : s.Staffed) (examples : List Example) (o : Overrides) :
    s.Asks (synthesize examples o) [⟨s.settings.override o, true, examples⟩] := by
  rw [Asks, perform_synthesize]
  exact asks_request hs (.inr ⟨o, rfl⟩) (.inl rfl) true examples

theorem asks_promote {p : Program} (hp : s.Native p) (hverified : p.verified = true) :
    s.Asks (promote p) [] := by
  obtain ⟨admitted, hpromote⟩ := hp.perform_promote_of_verified hverified
  have hchronicle : s.Chronicle [] (s.promoted p admitted) := .promoted .start hpromote
  rw [Asks, hpromote]
  exact ⟨[], hchronicle, rfl, rfl⟩

theorem asks_study (hs : s.Staffed) (hproper : s.catalog.Proper) (examples : List Example) :
    s.Asks (study examples) [⟨s.settings, true, examples⟩] := by
  rw [study, ← List.append_nil [_]]
  refine asks_bind (asks_solve hs examples true) fun answer _ s' hanswer _ => ?_
  cases answer with
  | none => exact asks_pure s' _
  | some p =>
    rw [perform_solve] at hanswer
    have hnative : s'.Native p := native_of_request hs hproper hanswer
    dsimp only
    by_cases hverified : p.verified = true
    · rw [if_pos hverified, ← List.append_nil []]
      exact asks_bind (asks_promote hnative hverified) fun _ _ _ _ _ => asks_pure _ _
    · rw [if_neg hverified]
      exact asks_pure s' _

theorem asks_expand (hs : s.Staffed) (hproper : s.catalog.Proper)
    (problems : List (List Example)) :
    s.Asks (expand problems) (problems.map fun examples => ⟨s.settings, true, examples⟩) := by
  induction problems generalizing s with
  | nil => exact asks_pure s _
  | cons examples problems ih =>
    rw [expand, List.mapM_cons, List.map_cons, ← List.singleton_append]
    refine asks_bind (asks_study hs hproper examples) fun _ _ s' _ hlog => ?_
    have hrest := ih (hlog.staffed hs) (hlog.proper hproper)
    rw [hlog.settings] at hrest
    rw [← List.append_nil (List.map _ problems)]
    exact asks_bind hrest fun _ _ _ _ _ => asks_pure _ _

theorem asks_learn (hs : s.Staffed) (hproper : s.catalog.Proper)
    (problems : List (List Example)) :
    s.Asks (learn problems) (problems.map fun examples => ⟨s.settings, true, examples⟩) :=
  asks_map (asks_expand hs hproper problems) admissions

theorem asks_demonstrate (hs : s.Staffed) (hproper : s.catalog.Proper) :
    s.Asks demonstrate (Call.demonstrate.queries s.settings) := by
  rw [Asks, demonstrate, perform_bind, perform_get, Call.queries, List.append_assoc]
  refine asks_bind (asks_request hs (.inl rfl) (.inr rfl) true _) fun _ _ s₁ _ hlog₁ => ?_
  have hs₁ := hlog₁.staffed hs
  have hstudies := asks_expand hs₁ (hlog₁.proper hproper) (curriculumExponents.map powers)
  rw [hlog₁.settings] at hstudies
  refine asks_bind hstudies fun _ _ s₂ _ hlog₂ => ?_
  have hafter := asks_solve (hlog₂.staffed hs₁) (powers targetExponent) true
  rw [hlog₂.settings, hlog₁.settings] at hafter
  rw [← List.append_nil [_]]
  refine asks_bind hafter fun _ _ s₃ _ _ => ?_
  rw [Asks, perform_bind, perform_get]
  exact asks_pure s₃ _

/-! ## Calls -/

theorem chronicle_promote (s : Session) (p : Program) : s.Chronicle [] (s.perform (promote p)).2 := by
  rcases h : s.perform (promote p) with ⟨e | admitted, s'⟩
  · obtain ⟨-, rfl⟩ := promote_eq_error.mp h
    exact .start
  · obtain rfl := promote_eq_ok h
    exact .promoted .start h

theorem chronicle_call (hs : s.Staffed) (hproper : s.catalog.Proper) (c : Call) :
    ∃ log, s.Chronicle log (s.perform c.op).2 ∧
      log.map (fun r => r.2.query) = c.posed s.settings := by
  have hasked {α : Type} {x : Op α} {xs : List Query} (hx : s.Asks x xs) :
      ∃ log, s.Chronicle log (s.perform (discard x)).2 ∧
        log.map (fun r => r.2.query) = xs.takeWhile Query.valid := by
    obtain ⟨log, hlog, hqueries, -⟩ := asks_map hx fun _ => ()
    exact ⟨log, hlog, hqueries⟩
  cases c with
  | solve examples verify => exact hasked (asks_solve hs examples verify)
  | synthesize examples overrides => exact hasked (asks_synthesize hs examples overrides)
  | promote p =>
    have hop : (s.perform (Call.promote p).op).2 = (s.perform (promote p)).2 :=
      congrArg Prod.snd (perform_map s (fun _ => ()) (promote p))
    exact ⟨[], hop ▸ chronicle_promote s p, rfl⟩
  | learn problems => exact hasked (asks_learn hs hproper problems)
  | demonstrate => exact hasked (asks_demonstrate hs hproper)

theorem chronicle_after (hs : s.Staffed) (hproper : s.catalog.Proper) (calls : List Call) :
    ∃ log, s.Chronicle log (s.after calls) ∧
      log.map (fun r => r.2.query) = calls.flatMap (Call.posed s.settings) := by
  induction calls generalizing s with
  | nil => exact ⟨[], .start, rfl⟩
  | cons c calls ih =>
    obtain ⟨log, hlog, hqueries⟩ := chronicle_call hs hproper c
    obtain ⟨log', hlog', hqueries'⟩ := ih (hlog.staffed hs) (hlog.proper hproper)
    rw [hlog.settings] at hqueries'
    refine ⟨log ++ log', hlog.trans hlog', ?_⟩
    rw [List.map_append, hqueries, hqueries', List.flatMap_cons]

end Session

end Exemplar
