import Exemplar.Proofs.Experience.Ranking
import Exemplar.Proofs.Session.Promotion
import Exemplar.Proofs.Session.Trial
import Mathlib.Logic.Relation

/-!
# What calls do to a session

Every call, whatever its answer, leads from one session to the next by elementary steps (`leads_call`):
a request is answered, or a promotion takes a program in or finds it to be known. Requests that are
refused, and promotions that fail, leave the session as it is. An invariant of sessions is one of these
steps.

The first such invariant: **the learner knows the strategies of the session, each under a name of its
own** (`Leads.staffed`, `Reachable.staffed`). So every report of an attempt is taken, and a ranking leads
to every strategy exactly once (`Staffed.ranked`).
-/

namespace Exemplar

/-- What may be asked of a session. -/
inductive Call where
  | solve (examples : List Example) (verify : Bool)
  | synthesize (examples : List Example) (overrides : Overrides)
  | promote (program : Program)
  | learn (problems : List (List Example))
  | demonstrate

def Call.op : Call → Session.Op Unit
  | .solve examples verify => discard (Session.solve examples verify)
  | .synthesize examples overrides => discard (Session.synthesize examples overrides)
  | .promote program => discard (Session.promote program)
  | .learn problems => discard (Session.learn problems)
  | .demonstrate => discard Session.demonstrate

namespace Session

/-- The session after some calls, whatever their answers. -/
def after (s : Session) (calls : List Call) : Session :=
  calls.foldl (fun s c => (s.perform c.op).2) s

/-! ## Steps -/

/-- A request that was not refused: its settings are those of the session or overridden ones, and its
table is the present one or that of the seeds. -/
structure Poses (s : Session) (q : Request) : Prop where
  settings : q.settings = s.settings ∨ ∃ o, q.settings = s.settings.override o
  table : q.table = s.catalog.table ∨ q.table = s.catalog.seedTable
  valid : q.settings.validate = .ok ()
  features : Features.ofExamples q.examples = .ok q.features

/-- The elementary changes of a session. -/
inductive Step (s : Session) : Session → Prop
  | answered {q : Request} (h : s.Poses q) : Step s (s.answered q)
  | admitted {p : Program} {id : PrimId} {catalog : Catalog}
    (hlineage : p.table.continuedBy s.catalog.table = true) (hrequire : p.require = .ok ())
    (hregister : s.catalog.register s.catalog.freeName p.signature p.term capabilityCost =
      .ok (.admitted id, catalog)) :
    Step s { s with catalog, tally.admitted := s.tally.admitted + 1 }
  | duplicate : Step s { s with tally.duplicates := s.tally.duplicates + 1 }

/-- Some steps lead from one session to another one. -/
abbrev Leads : Session → Session → Prop := Relation.ReflTransGen Step

theorem Leads.keeps {P : Session → Prop} (hstep : ∀ s s', Step s s' → P s → P s') {s s' : Session}
    (h : s.Leads s') (hs : P s) : P s' := by
  induction h with
  | refl => exact hs
  | tail _ hlast ih => exact hstep _ _ hlast ih

variable {s : Session} {α β : Type}

theorem Staffed.step {s' : Session} (hstep : Step s s') (h : s.Staffed) : s'.Staffed := by
  cases hstep with
  | answered _ => exact h.answered _
  | admitted => exact ⟨h.known, h.nodup⟩
  | duplicate => exact ⟨h.known, h.nodup⟩

theorem Leads.staffed {s' : Session} (h : s.Leads s') (hs : s.Staffed) : s'.Staffed :=
  h.keeps (fun _ _ => Staffed.step) hs

theorem leads_bind {x : Op α} {f : α → Op β} (hx : s.Leads (s.perform x).2)
    (hf : ∀ a s', s.Leads s' → s'.Leads (s'.perform (f a)).2) : s.Leads (s.perform (x >>= f)).2 := by
  rw [perform_bind]
  rcases h : s.perform x with ⟨r, s'⟩
  rw [h] at hx
  cases r with
  | error e => exact hx
  | ok a => exact hx.trans (hf a s' hx)

theorem leads_map {x : Op α} (hx : s.Leads (s.perform x).2) (f : α → β) :
    s.Leads (s.perform (f <$> x)).2 := by
  rw [perform_map]
  exact hx

theorem leads_request (hs : s.Staffed) {settings : Settings} {table : Table}
    (hsettings : settings = s.settings ∨ ∃ o, settings = s.settings.override o)
    (htable : table = s.catalog.table ∨ table = s.catalog.seedTable) (verify : Bool)
    (examples : List Example) : s.Leads (s.perform (request settings verify table examples)).2 := by
  rw [perform_request hs]
  split
  · exact .refl
  · exact .refl
  · rename_i features hvalid hfeatures
    exact .single (.answered ⟨hsettings, htable, hvalid, hfeatures⟩)

theorem leads_solve (hs : s.Staffed) (examples : List Example) (verify : Bool) :
    s.Leads (s.perform (solve examples verify)).2 := by
  rw [perform_solve]
  exact leads_request hs (.inl rfl) (.inl rfl) verify examples

theorem leads_synthesize (hs : s.Staffed) (examples : List Example) (o : Overrides) :
    s.Leads (s.perform (synthesize examples o)).2 := by
  rw [perform_synthesize]
  exact leads_request hs (.inr ⟨o, rfl⟩) (.inl rfl) true examples

theorem leads_promote (p : Program) : s.Leads (s.perform (promote p)).2 := by
  rw [perform_promote]
  split
  · exact .refl
  · exact .refl
  · rename_i hlineage hrequire
    split
    · exact .refl
    · rename_i hregister
      exact .single (.admitted hlineage hrequire hregister)
    · exact .single .duplicate

theorem leads_study (hs : s.Staffed) (examples : List Example) :
    s.Leads (s.perform (study examples)).2 := by
  refine leads_bind (leads_solve hs examples true) fun answer s' _ => ?_
  cases answer with
  | none => exact .refl
  | some p =>
    dsimp only
    split
    · exact leads_bind (leads_promote p) fun _ _ _ => .refl
    · exact .refl

theorem leads_expand (hs : s.Staffed) (problems : List (List Example)) :
    s.Leads (s.perform (expand problems)).2 := by
  induction problems generalizing s with
  | nil => exact .refl
  | cons examples problems ih =>
    rw [expand, List.mapM_cons]
    exact leads_bind (leads_study hs examples) fun _ _ hfirst =>
      leads_bind (ih (hfirst.staffed hs)) fun _ _ _ => .refl

theorem leads_learn (hs : s.Staffed) (problems : List (List Example)) :
    s.Leads (s.perform (learn problems)).2 :=
  leads_bind (leads_expand hs problems) fun _ _ _ => .refl

theorem leads_demonstrate (hs : s.Staffed) : s.Leads (s.perform demonstrate).2 := by
  rw [demonstrate, perform_bind, perform_get]
  refine leads_bind (leads_request hs (.inl rfl) (.inr rfl) true _) fun _ _ hbefore => ?_
  have hstaffed := hbefore.staffed hs
  refine leads_bind (leads_expand hstaffed _) fun _ _ hstudies => ?_
  refine leads_bind (leads_solve (hstudies.staffed hstaffed) _ true) fun _ _ _ => ?_
  exact leads_bind .refl fun _ _ _ => .refl

/-- **Every call leads from session to session by elementary steps.** -/
theorem leads_call (hs : s.Staffed) (c : Call) : s.Leads (s.perform c.op).2 := by
  cases c with
  | solve examples verify => exact leads_map (leads_solve hs examples verify) _
  | synthesize examples o => exact leads_map (leads_synthesize hs examples o) _
  | promote p => exact leads_map (leads_promote p) _
  | learn problems => exact leads_map (leads_learn hs problems) _
  | demonstrate => exact leads_map (leads_demonstrate hs) _

/-- The sessions that can come about: new ones over a catalog, with more strategies, and after calls. -/
inductive Reachable : Session → Prop
  | created {catalog : Catalog} {settings : Settings} {timing : Timing} {s : Session}
    (h : ofCatalog catalog settings timing = .ok s) : Reachable s
  | extended {s : Session} (h : Reachable s) (k : Strategy) : Reachable (s.addStrategy k)
  | called {s : Session} (h : Reachable s) (c : Call) : Reachable (s.perform c.op).2

theorem ofCatalog_eq_ok {catalog : Catalog} {settings : Settings} {timing : Timing} :
    ofCatalog catalog settings timing = .ok s ↔ settings.validate = .ok () ∧ catalog.size ≠ 0 ∧
      s = Strategy.standard.foldl addStrategy (bare catalog settings timing) := by
  rw [ofCatalog]
  cases settings.validate with
  | error e => simp [Error.lift, bind, Except.bind]
  | ok u =>
    by_cases hsize : catalog.size = 0
    · simp [hsize, Error.lift, bind, Except.bind, throw, throwThe, MonadExceptOf.throw]
    · simp [hsize, Error.lift, bind, Except.bind, pure, Except.pure, eq_comm]

theorem staffed_bare (catalog : Catalog) (settings : Settings) (timing : Timing) :
    (bare catalog settings timing).Staffed := ⟨rfl, .nil⟩

theorem Staffed.addStrategy (h : s.Staffed) (k : Strategy) : (s.addStrategy k).Staffed := by
  rw [Session.addStrategy]
  split
  · exact h
  · rename_i hknows
    rw [Learner.knows_iff] at hknows
    have hnew : k.name ∉ s.strategies.map Strategy.name := h.known ▸ hknows
    constructor
    · rw [Learner.strategies_register hknows, h.known, List.map_append, List.map_singleton]
    · rw [List.map_append, List.map_singleton]
      exact List.nodup_append.mpr ⟨h.nodup, by simp, by simpa using hnew⟩

theorem Staffed.addStrategies (h : s.Staffed) (ks : List Strategy) :
    (ks.foldl Session.addStrategy s).Staffed := by
  induction ks generalizing s with
  | nil => exact h
  | cons k ks ih => exact ih (h.addStrategy k)

theorem Reachable.staffed (h : s.Reachable) : s.Staffed := by
  induction h with
  | created h =>
    obtain ⟨-, -, rfl⟩ := ofCatalog_eq_ok.mp h
    exact (staffed_bare _ _ _).addStrategies _
  | extended _ k ih => exact ih.addStrategy k
  | called _ c ih => exact (leads_call ih c).staffed ih

namespace Staffed

theorem strategy?_name (h : s.Staffed) {k : Strategy} (hk : k ∈ s.strategies) :
    s.strategy? k.name = some k := find?_key h.nodup hk

theorem ranked (h : s.Staffed) (bucket : Bucket) :
    ((s.learner.rank bucket).1.filterMap s.strategy?).map Strategy.name =
      (s.learner.rank bucket).1 := by
  have hmem : ∀ name ∈ (s.learner.rank bucket).1, ∃ k ∈ s.strategies, k.name = name := by
    intro name hname
    rw [(Learner.rank_perm s.learner bucket).mem_iff, h.known] at hname
    exact List.mem_map.mp hname
  generalize (s.learner.rank bucket).1 = names at hmem ⊢
  induction names with
  | nil => rfl
  | cons name names ih =>
    obtain ⟨⟨k, hk, rfl⟩, hrest⟩ := List.forall_mem_cons.mp hmem
    rw [List.filterMap_cons_some (h.strategy?_name hk), List.map_cons, ih hrest]

end Staffed

end Session

end Exemplar
