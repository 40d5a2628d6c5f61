import Exemplar.Proofs.Experience.Ranking
import Exemplar.Proofs.Session.Operation
import Exemplar.Session.Request

/-!
# The course of a request

A request tries the strategies one after the other up to the first that succeeds. `Request.course` says
which ones, and with what outcome, without the session that changes meanwhile: what a strategy returns
depends on the request, the timing and the number of the attempt alone. **The answer of a request and the
session after it are folds over its course** (`perform_request`).

In the middle of a request the learner might refuse the report of an attempt, namely by a strategy that it
does not know (`Learner.record`). It never comes to this as long as the session is staffed, and attempts
leave it staffed (`perform_pursue`).
-/

namespace Exemplar

/-- A strategy that was tried on a request, the number of the attempt in its session, and what came out. -/
structure Trial where
  strategy : Strategy
  number : Nat
  returned : Except Error Candidate

namespace Trial

/-- How the request counts what came out. -/
def status (q : Request) (t : Trial) : AttemptStatus := (q.judge t.strategy.name t.returned).1

def program? (q : Request) (t : Trial) : Option Program := (q.judge t.strategy.name t.returned).2

/-- Whether the candidate is accepted. -/
def succeeds (q : Request) (t : Trial) : Bool := (t.status q).success

/-- The trial as it is recorded. -/
def attempt (q : Request) (timing : Timing) (t : Trial) : Attempt :=
  ⟨t.strategy.name, (timing.latency t.number).milliseconds, t.status q⟩

end Trial

namespace Request

variable (q : Request) (timing : Timing)

def trial (number : Nat) (strategy : Strategy) : Trial :=
  ⟨strategy, number,
    strategy.attempt (timing.clock number q.settings.timeBudget) q.table q.settings q.examples⟩

/-- The trials of strategies up to the first that succeeds. -/
def course : Nat → List Strategy → List Trial
  | _, [] => []
  | number, k :: ks =>
    q.trial timing number k ::
      if (q.trial timing number k).succeeds q then [] else course (number + 1) ks

def note (known : Trials) (t : Trial) : Trials := known.add (t.attempt q timing) (t.program? q)

def collect (ts : List Trial) : Trials := ts.foldl (q.note timing) .none

def teach (l : Learner) (t : Trial) : Learner :=
  l.observe t.strategy.name q.features.bucket (t.succeeds q) (timing.latency t.number)

end Request

namespace Session

variable (q : Request) (s : Session)

def tried (ts : List Trial) : Session :=
  { s with
    learner := ts.foldl (q.teach s.timing) s.learner
    tally.strategyAttempts := s.tally.strategyAttempts + ts.length }

/-- The trials that a request makes: the strategies come in the order in which the learner ranks
them. -/
def trials : List Trial :=
  q.course s.timing s.tally.strategyAttempts
    ((s.learner.rank q.features.bucket).1.filterMap s.strategy?)

/-- The session when the strategies are ranked for a request and the request is counted. -/
def started : Session :=
  { s with
    learner := (s.learner.rank q.features.bucket).2
    tally.attempted := s.tally.attempted + 1 }

def answered : Session :=
  let known := q.collect s.timing (s.trials q)
  let tried := (s.started q).tried q (s.trials q)
  { tried with
    tally := countAnswer known.answer tried.tally
    history := Recent.push s.settings.maxRecords s.history (entryOf q known) }

end Session

/-! ## One trial after the other -/

namespace Request

variable {q : Request} {timing : Timing}

theorem judge_success {name : String} {r : Except Error Candidate}
    (h : (q.judge name r).1.success = true) : (q.judge name r).2.isSome = true := by
  cases r with
  | error e =>
    rw [judge] at h
    split at h <;> cases h
  | ok c => rfl

theorem isSome_accepted_note (q : Request) (timing : Timing) {known : Trials}
    (hnone : known.accepted = none) (t : Trial) :
    (q.note timing known t).accepted.isSome = t.succeeds q := by
  have hprogram : (q.judge t.strategy.name t.returned).1.success = true →
      (q.judge t.strategy.name t.returned).2.isSome = true := judge_success
  rw [note, Trials.add, Trial.succeeds, Trial.attempt, Trial.status, Trial.program?]
  cases hstatus : (q.judge t.strategy.name t.returned).1 with
  | accepted verdict => simpa [AttemptStatus.success] using hprogram (by rw [hstatus]; rfl)
  | _ => simp [AttemptStatus.success, hnone]

end Request

namespace Session

variable {q : Request} {s : Session} {name : String} {rest : List String}

theorem tried_cons (t : Trial) (ts : List Trial) : s.tried q (t :: ts) = (s.tried q [t]).tried q ts := by
  simp only [tried, List.foldl_cons, List.foldl_nil, List.length_cons, List.length_nil]
  congr 2
  omega

/-! ## Sessions that know their strategies -/

/-- The learner knows the strategies of the session, and no two of them have the same name. -/
structure Staffed (s : Session) : Prop where
  known : s.learner.strategies = s.strategies.map Strategy.name
  nodup : (s.strategies.map Strategy.name).Nodup

theorem Staffed.knows_of_strategy? (h : s.Staffed) {k : Strategy} (hk : s.strategy? name = some k) :
    s.learner.knows k.name = true := by
  rw [Learner.knows_iff, h.known]
  exact List.mem_map_of_mem (List.mem_of_find?_eq_some hk)

theorem strategies_foldl_teach (q : Request) (timing : Timing) (ts : List Trial) (l : Learner) :
    (ts.foldl (q.teach timing) l).strategies = l.strategies := by
  induction ts generalizing l with
  | nil => rfl
  | cons t ts ih => rw [List.foldl_cons, ih, Request.teach, Learner.strategies_observe]

theorem Staffed.started (h : s.Staffed) (q : Request) : (s.started q).Staffed := ⟨h.known, h.nodup⟩

theorem Staffed.tried (h : s.Staffed) (q : Request) (ts : List Trial) : (s.tried q ts).Staffed :=
  ⟨(strategies_foldl_teach _ _ _ _).trans h.known, h.nodup⟩

theorem Staffed.answered (h : s.Staffed) (q : Request) : (s.answered q).Staffed :=
  have htried := (h.started q).tried q (s.trials q)
  ⟨htried.known, htried.nodup⟩

/-! ## Trying the strategies -/

theorem perform_attemptWith {k : Strategy} (hknows : s.learner.knows k.name = true)
    (known : Trials) :
    s.perform (attemptWith q k known) =
      let t := q.trial s.timing s.tally.strategyAttempts k
      (.ok (q.note s.timing known t), s.tried q [t]) := by
  simp only [attemptWith, perform_bind, perform_get, perform_set, perform_of, Learner.record, hknows,
    if_true]
  rfl

theorem perform_pursue_cons (name : String) (rest : List String) (known : Trials) :
    s.perform (pursue q (name :: rest) known) =
      match s.strategy? name with
      | none => s.perform (pursue q rest known)
      | some k => s.perform (attemptWith q k known >>= fun known =>
          if known.accepted.isSome then return known else pursue q rest known) := by
  rw [pursue, perform_bind, perform_get]
  dsimp only
  cases s.strategy? name <;> rfl

/-- **No report is refused, and the strategies are tried in the course of the request.** -/
theorem perform_pursue (hs : s.Staffed) (names : List String) {known : Trials}
    (hnone : known.accepted = none) :
    s.perform (pursue q names known) =
      let ts := q.course s.timing s.tally.strategyAttempts (names.filterMap s.strategy?)
      (.ok (ts.foldl (q.note s.timing) known), s.tried q ts) := by
  induction names generalizing known s with
  | nil => rfl
  | cons name rest ih =>
    rw [perform_pursue_cons]
    cases hname : s.strategy? name with
    | none => rw [List.filterMap_cons_none hname]; exact ih hs hnone
    | some k =>
      have haccepted := Request.isSome_accepted_note q s.timing hnone
        (q.trial s.timing s.tally.strategyAttempts k)
      dsimp only
      rw [List.filterMap_cons_some hname, Request.course, perform_bind,
        perform_attemptWith (hs.knows_of_strategy? hname)]
      generalize q.trial s.timing s.tally.strategyAttempts k = t at haccepted ⊢
      dsimp only
      rw [haccepted]
      split
      · rfl
      · rename_i hfails
        -- the next strategy starts from the session with this trial, so its trial has the next number
        rw [ih (hs.tried q [t]) (by simpa [hfails] using haccepted)]
        exact Prod.ext rfl (tried_cons t _).symm

/-! ## Requests -/

theorem perform_answer (hs : s.Staffed) (q : Request) :
    s.perform (answer q) =
      (.ok (q.collect s.timing (s.trials q)).answer, s.answered q) := by
  have hstep : s.perform (answer q) =
      (s.started q).perform
        (pursue q (s.learner.rank q.features.bucket).1 .none >>= fun ts => close q ts) := rfl
  rw [hstep, perform_bind, perform_pursue (hs.started q) _ rfl]
  rfl

/-- **A request is refused without a trace, or it is answered by the course of its trials.** -/
theorem perform_request (hs : s.Staffed) (settings : Settings) (verify : Bool) (table : Table)
    (examples : List Example) :
    s.perform (request settings verify table examples) =
      match settings.validate, Features.ofExamples examples with
      | .error e, _ => (.error (.settings e), s)
      | .ok (), .error e => (.error (.problem e), s)
      | .ok (), .ok features =>
        let q : Request := ⟨settings, verify, table, examples, features⟩
        (.ok (q.collect s.timing (s.trials q)).answer, s.answered q) := by
  rw [request, perform_bind]
  cases settings.validate with
  | error e => simp [Error.lift]
  | ok u =>
    cases Features.ofExamples examples with
    | error e => simp [Error.lift, perform_bind]
    | ok features =>
      simp only [Error.lift, perform_bind, perform_of]
      exact perform_answer hs _

theorem perform_solve (s : Session) (examples : List Example) (verify : Bool) :
    s.perform (solve examples verify) =
      s.perform (request s.settings verify s.catalog.table examples) := by
  rw [solve, perform_bind, perform_get]

theorem perform_synthesize (s : Session) (examples : List Example) (o : Overrides) :
    s.perform (synthesize examples o) =
      s.perform (request (s.settings.override o) true s.catalog.table examples) := by
  rw [synthesize, perform_bind, perform_get]

end Session

end Exemplar
