import Exemplar.Proofs.TypeSoundness
import Exemplar.Proofs.Verification.Certificate
import Exemplar.Proofs.Verification.Coverage

/-!
# What an exploration of paths can find

**A natural forced run has a value exactly if the ordinary evaluation has it**, and so the exploration of
the paths of an admissible program finds no ill-typed and no violating run: **it passes if and only if the
budget covers all assignments and each of them is followed naturally by some example**
(`path_exploration_exact`). Both need entries of the table to declare what their operations take and return
(`path_exploration_misdeclared`).

From evaluation to the forced run this is `forced_natural`. For the way back, `r.Ends a` says that the run
`r` is natural and has the value `a`. It passes through the steps of a run (`andThen_ends`), so that a
natural run of an application has values for the arguments that were run, and they decide the value of the
application (`eval_of_forced`). Of a conditional with a wrong number of arguments a forced run goes through
all of them. Too few values cannot be applied, and too many only if the table declares as many parameters.

Violating runs are natural runs of examples, which the mandatory checks have replayed. A run that is not
natural may take branches that the program would not take by itself, but a well-typed program has
well-typed branches (`forced_safe`).
-/

namespace Exemplar

/-! ## Natural runs -/

namespace Run

variable {α β : Type} {r : Run α} {next : α → Run β}

/-- The run is natural and has a value. -/
def Ends (r : Run α) (a : α) : Prop := r.value = .ok a ∧ r.natural = true

theorem plain_ends {x : Result α} {a : α} : (plain x).Ends a ↔ x = .ok a := by
  simp [plain, Ends]

theorem andThen_ends {b : β} : (r.andThen next).Ends b ↔ ∃ a, r.Ends a ∧ (next a).Ends b := by
  rw [Ends, andThen]
  cases hvalue : r.value with
  | error f =>
    simp [Ends, hvalue]
  | ok a =>
    simp only [Ends, hvalue, Except.ok.injEq, Bool.and_eq_true]
    constructor
    · rintro ⟨hb, hr, hnext⟩
      exact ⟨a, ⟨rfl, hr⟩, hb, hnext⟩
    · rintro ⟨_, ⟨rfl, hr⟩, hb, hnext⟩
      exact ⟨hb, hr, hnext⟩

theorem andThen_value_eq (r : Run α) (next : α → Run β) :
    (r.andThen next).value = r.value >>= fun a => (next a).value := by
  rw [andThen]
  cases r.value <;> rfl

end Run

theorem Assignment.decide_ends {a : Assignment} {v : Value} {p : Bool} (h : (a.decide v).Ends p) :
    v = .bool p := by
  obtain ⟨hvalue, hnatural⟩ := h
  cases v with
  | bool q =>
    obtain ⟨hq, -⟩ := decide_natural hnatural
    rw [hq] at hvalue
    rw [Except.ok.inj hvalue]
  | _ => simp [decide, Value.toBool, Run.plain] at hvalue

theorem Assignment.decide_safe {t : Table} {a : Assignment} {v : Value} (hv : v.HasTy t .bool) :
    Safe (fun _ => True) (a.decide v).value := by
  obtain ⟨p, rfl⟩ := Value.hasTy_bool.mp hv
  rw [decide]
  cases a [] <;> trivial

namespace Machine

variable {m : Machine} {inputs : List Value}

theorem exists_of_apply_eq_ok {id : PrimId} {vs : List Value} {v : Value} (h : m.apply id vs = .ok v) :
    ∃ p, m.table.get? id = some p ∧ vs.length = p.arity := by
  rw [apply, applyAt, callAt, applyWith] at h
  split at h
  · cases h
  · rename_i p hget
    split at h
    · rename_i harity
      exact ⟨p, hget, harity⟩
    · cases h

theorem forcedArgs_ends {args : List Term} {vs : List Value} {a : Assignment} {i : Nat}
    (heval : ∀ e ∈ args, ∀ (a : Assignment) v, (m.forced inputs a e).Ends v → m.eval e inputs = .ok v)
    (h : (m.forcedArgs inputs a i args).Ends vs) :
    List.Forall₂ (fun e v => m.eval e inputs = .ok v) args vs := by
  induction args generalizing i vs with
  | nil =>
    rw [forcedArgs, Run.plain_ends] at h
    obtain rfl := Except.ok.inj h
    exact .nil
  | cons e es ih =>
    obtain ⟨hhead, htail⟩ := List.forall_mem_cons.mp heval
    rw [forcedArgs, Run.andThen_ends] at h
    obtain ⟨v, hv, h⟩ := h
    obtain ⟨ws, hws, h⟩ := Run.andThen_ends.mp h
    obtain rfl := Except.ok.inj (Run.plain_ends.mp h)
    exact .cons (hhead _ v hv) (ih htail hws)

theorem eval_of_forcedArgs (ht : m.table.Ternary) {id : PrimId} {args : List Term} {a : Assignment} {v : Value}
    (heval : ∀ e ∈ args, ∀ (a : Assignment) v, (m.forced inputs a e).Ends v → m.eval e inputs = .ok v)
    (h : ((m.forcedArgs inputs a 0 args).andThen fun vs => .plain (m.apply id vs)).Ends v) :
    m.eval (.apply id args) inputs = .ok v := by
  obtain ⟨vs, hvs, h⟩ := Run.andThen_ends.mp h
  have happly : m.apply id vs = .ok v := Run.plain_ends.mp h
  have hargs := forcedArgs_ends heval hvs
  obtain ⟨p, hget, harity⟩ := exists_of_apply_eq_ok happly
  exact (eval_apply_eq_ok ht hget (hargs.length_eq.trans harity) hargs).mpr happly

theorem eval_of_forced (ht : m.table.Ternary) (e : Term) : ∀ (a : Assignment) v, (m.forced inputs a e).Ends v →
    m.eval e inputs = .ok v := by
  induction e using Term.inductionOn with
  | lit w => exact fun a v h => Run.plain_ends.mp h
  | var i => exact fun a v h => Run.plain_ends.mp h
  | apply id args ih =>
    intro a v h
    rw [forced.eq_def] at h
    by_cases hid : m.table.conditional id = true
    · simp only [hid, if_true] at h
      -- a conditional without three arguments is run like any other operation
      split at h
      · rename_i c x y
        obtain ⟨p, hp, hbranch⟩ := Run.andThen_ends.mp h
        obtain ⟨w, hw, hp⟩ := Run.andThen_ends.mp hp
        obtain rfl := Assignment.decide_ends hp
        rw [eval_apply_conditional hid, ih c (by simp) _ _ hw]
        cases p with
        | true => exact ih x (by simp) _ _ hbranch
        | false => exact ih y (by simp) _ _ hbranch
      · exact eval_of_forcedArgs ht ih h
    · simp only [hid] at h
      exact eval_of_forcedArgs ht ih h

theorem forced_eq_ok_iff (ht : m.table.Ternary) {e : Term} {a : Assignment}
    (hnatural : (m.forced inputs a e).natural = true) {v : Value} : (m.forced inputs a e).value = .ok v ↔ m.eval e inputs = .ok v :=
  ⟨fun h => eval_of_forced ht e a v ⟨h, hnatural⟩, fun h => (forced_natural e a v h hnatural).1⟩

/-! ## Types of forced runs -/

variable {tys : List Ty}

theorem forcedArgs_safe {args : List Term} {params : List Ty} {a : Assignment} {i : Nat}
    (hforced : ∀ e ∈ args, ∀ (a : Assignment) ty, e.infer m.table tys = .ok ty →
      Safe (Value.HasTy m.table · ty) (m.forced inputs a e).value)
    (hargs : List.Forall₂ (fun e ty => e.infer m.table tys = .ok ty) args params) :
    Safe (List.Forall₂ (Value.HasTy m.table) · params) (m.forcedArgs inputs a i args).value := by
  induction hargs generalizing i with
  | nil => exact .nil
  | cons he _ ih =>
    obtain ⟨hhead, htail⟩ := List.forall_mem_cons.mp hforced
    rw [forcedArgs, Run.andThen_value_eq]
    refine (hhead _ _ he).bind fun v hv => ?_
    rw [Run.andThen_value_eq]
    exact (ih htail).bind fun vs hvs => .cons hv hvs

theorem forced_safe (ht : m.table.WellTyped) (hinputs : List.Forall₂ (Value.HasTy m.table) inputs tys)
    (e : Term) : ∀ (a : Assignment) ty, e.infer m.table tys = .ok ty →
      Safe (Value.HasTy m.table · ty) (m.forced inputs a e).value := by
  induction e using Term.inductionOn with
  | lit v => exact fun a ty hty => hty
  | var i => exact fun a ty hty => eval_safe ht hty hinputs
  | apply id args ih =>
    intro a ty hty
    obtain ⟨p, hget, rfl, hargs⟩ := Term.infer_apply.mp hty
    rw [forced.eq_def]
    by_cases hid : m.table.conditional id = true
    · obtain ⟨p', hget', hrule⟩ := Table.conditional_iff.mp hid
      obtain rfl : p = p' := Option.some.inj (hget.symm.trans hget')
      have hsig : p.signature = Builtin.cond.signature := by
        have hp := ht p (Table.mem_of_get? hget)
        rwa [Primitive.WellTyped, hrule] at hp
      rw [hsig] at hargs ⊢
      -- its signature leaves it no other arguments than a condition and two branches
      rcases hargs with _ | ⟨hc, _ | ⟨hx, _ | ⟨hy, _ | _⟩⟩⟩
      simp only [hid, if_true]
      rw [Run.andThen_value_eq, Run.andThen_value_eq, bind_assoc]
      refine (ih _ (by simp) _ _ hc).bind fun w hw => ?_
      refine (Assignment.decide_safe hw).bind fun taken _ => ?_
      cases taken with
      | true => exact ih _ (by simp) _ _ hx
      | false => exact ih _ (by simp) _ _ hy
    · simp only [hid]
      rw [if_neg Bool.false_ne_true, Run.andThen_value_eq]
      refine (forcedArgs_safe ih hargs).bind fun vs hvs => ?_
      exact (callAt_safe ht (m.limits.callDepth + 1)).apply id p vs hget hvs

end Machine

/-! ## Assignments -/

/-- The assignment that makes a choice at some sites, and none elsewhere. -/
def Assignment.choosing (sites : List Term.Path) (branch : Term.Path → Bool) : Assignment :=
  fun path => if path ∈ sites then some (branch path) else none

theorem Assignment.ofBits_of_not_mem {sites : List Term.Path} {path : Term.Path} (h : path ∉ sites)
    (bits : Nat) : ofBits sites bits path = none := by
  rw [ofBits, List.idxOf?_eq_none_iff.mpr h]
  rfl

theorem Assignment.exists_ofBits_eq (sites : List Term.Path) (branch : Term.Path → Bool) :
    ∃ bits < 2 ^ sites.length, ofBits sites bits = choosing sites branch := by
  obtain ⟨bits, hbits, hassigned⟩ := exists_ofBits sites branch
  refine ⟨bits, hbits, funext fun path => ?_⟩
  by_cases hpath : path ∈ sites
  · rw [hassigned path hpath, choosing, if_pos hpath]
  · rw [ofBits_of_not_mem hpath, choosing, if_neg hpath]

theorem Assignment.ofBits_eq_choosing (sites : List Term.Path) (bits : Nat) :
    ofBits sites bits = choosing sites fun path => (ofBits sites bits path).getD false := by
  funext path
  by_cases hpath : path ∈ sites
  · obtain ⟨i, hi⟩ := Option.isSome_iff_exists.mp (List.isSome_idxOf?.mpr hpath)
    simp [choosing, hpath, ofBits, hi]
  · rw [ofBits_of_not_mem hpath, choosing, if_neg hpath]

/-- Every choice of branches at the conditionals of a program is followed naturally by an example. -/
def Exercised (m : Machine) (examples : List Example) (e : Term) : Prop :=
  ∀ branch, ∃ ex ∈ examples,
    (m.forced ex.inputs (.choosing (e.sites m.table) branch) e).natural = true

theorem exercised_iff {m : Machine} {examples : List Example} {e : Term} :
    Exercised m examples e ↔ ∀ bits < 2 ^ (e.sites m.table).length, ∃ ex ∈ examples,
      (m.forced ex.inputs (.ofBits (e.sites m.table) bits) e).natural = true := by
  constructor
  · intro h bits _
    rw [Assignment.ofBits_eq_choosing]
    exact h _
  · intro h branch
    obtain ⟨bits, hbits, heq⟩ := Assignment.exists_ofBits_eq (e.sites m.table) branch
    exact heq ▸ h bits hbits

/-! ## What an exploration counts -/

theorem Value.plainTy?_of_hasTy {t : Table} {v w : Value} {ty : Ty} (hw : w.plainTy? = some ty)
    (hv : v.HasTy t ty) : v.plainTy? = some ty := by
  cases w with
  | int n =>
    obtain rfl := Option.some.inj hw
    obtain ⟨m, rfl⟩ := hasTy_int.mp hv
    rfl
  | bool b =>
    obtain rfl := Option.some.inj hw
    obtain ⟨c, rfl⟩ := hasTy_bool.mp hv
    rfl
  | list xs =>
    obtain rfl := Option.some.inj hw
    obtain ⟨ys, rfl⟩ := hasTy_list.mp hv
    rfl
  | func f => cases hw

namespace PathReport

variable {m : Machine} {budget : Nat} {ret : Ty} {signature : Signature} {examples : List Example}
  {e : Term}

theorem countP_follow {p : Example × Run Value → Bool}
    (h : ∀ ex ∈ examples, ∀ a, p (ex, m.forced ex.inputs a e) = false)
    (assignment : Nat → Assignment) (ns : List Nat) :
    (ns.map fun n => follow m e examples (assignment n)).flatten.countP p = 0 := by
  simp only [List.countP_eq_zero, List.mem_flatten, List.mem_map, follow]
  rintro _ ⟨_, ⟨n, _, rfl⟩, hrun⟩
  obtain ⟨ex, hex, rfl⟩ := List.mem_map.mp hrun
  simp [h ex hex (assignment n)]

theorem explore_illTyped (ht : m.table.WellTyped)
    (hexamples : ∀ ex ∈ examples, Problem.Fits signature ex)
    (hty : e.infer m.table signature.params = .ok signature.ret) :
    (explore m budget signature.ret examples e).illTyped = 0 := by
  have htyped : ∀ ex ∈ examples, ∀ a,
      isIllTyped signature.ret (ex, m.forced ex.inputs a e) = false := by
    intro ex hex a
    obtain ⟨hinputs, houtput⟩ := hexamples ex hex
    have hsafe := Machine.forced_safe ht (hinputs.imp fun _ _ => Value.hasTy_of_plainTy?) e a _ hty
    rw [isIllTyped]
    cases hvalue : (m.forced ex.inputs a e).value with
    | error f => rfl
    | ok v =>
      have hv := Value.plainTy?_of_hasTy houtput (hsafe.of_eq_ok hvalue)
      simp [hv]
  exact countP_follow htyped _ _

theorem explore_violating (hreplay : ∀ ex ∈ examples, m.eval e ex.inputs = .ok ex.output) :
    (explore m budget ret examples e).violating = 0 := by
  have hmatching : ∀ ex ∈ examples, ∀ a, isViolating (ex, m.forced ex.inputs a e) = false := by
    intro ex hex a
    rw [isViolating]
    cases hnatural : (m.forced ex.inputs a e).natural with
    | false => rfl
    | true =>
      obtain ⟨hvalue, -⟩ := Machine.forced_natural e a _ (hreplay ex hex) hnatural
      simp [hvalue, Except.toOption]
  exact countP_follow hmatching _ _

theorem clean_iff_exercised (hbudget : budget < maxTotal)
    (htyped : (explore m budget ret examples e).illTyped = 0)
    (hmatching : (explore m budget ret examples e).violating = 0) :
    (explore m budget ret examples e).clean = true ↔
      2 ^ (e.sites m.table).length ≤ budget ∧ Exercised m examples e := by
  rw [explore_clean_iff hbudget, exercised_iff]
  simp [htyped, hmatching]

end PathReport

/-! ## Verification -/

namespace Verification

variable {t : Table} {s : Settings} {signature : Signature} {examples : List Example} {e : Term}

theorem paths_record (m : Machine) {budget : Nat} (hsites : e.sites m.table ≠ []) :
    (paths m budget signature examples e).record =
      ⟨.paths, (paths m budget signature examples e).record.outcome,
        (PathReport.explore m budget signature.ret examples e).text⟩ := by
  rw [paths, if_neg (by simpa using hsites)]

/-- **The exploration of paths is exact.** A natural forced run has the values of the evaluation, unless a
conditional of the table declares more than three parameters. If the program is admissible, so that its paths are explored, and the entries of the table have their types
(builtin operations have their own, and learned bodies the declared ones), the report of the exploration
counts no ill-typed and no violating run, and the check passes if and only if there is no conditional, or
the budget suffices for all assignments and each is followed naturally by an example. -/
theorem path_exploration_exact :
    (∀ (m : Machine) (inputs : List Value) (a : Assignment) (e : Term),
      m.table.Ternary → (m.forced inputs a e).natural = true →
        ∀ v, (m.forced inputs a e).value = .ok v ↔ m.eval e inputs = .ok v) ∧
    ∀ (t : Table) (s : Settings) (examples : List Example) (signature : Signature) (e : Term),
      t.WellTyped → 1 ≤ s.pathBudget → s.pathBudget < PathReport.maxTotal →
      Problem.signature examples = .ok signature →
      (verify t s signature examples e).admissible = true →
        let m := t.machine s.limits
        let c := verify t s signature examples e
        let r := PathReport.explore m s.pathBudget signature.ret examples e
        (e.sites t ≠ [] → ∃ outcome, ⟨.paths, outcome, r.text⟩ ∈ c.checks) ∧
        r.illTyped = 0 ∧ r.violating = 0 ∧
        (c.outcomeOf? .paths = some .passed ↔ e.sites t = [] ∨
          2 ^ (e.sites t).length ≤ s.pathBudget ∧ Exercised m examples e) := by
  refine ⟨fun m inputs a e ht h v => Machine.forced_eq_ok_iff ht h, ?_⟩
  intro t s examples signature e ht hpositive hbudget hproblem hadmissible m c r
  obtain ⟨hreplay, hty⟩ := admissible_iff.mp hadmissible
  obtain ⟨-, hexamples⟩ := Problem.signature_eq_ok hproblem
  have htyped : r.illTyped = 0 := PathReport.explore_illTyped ht hexamples hty
  have hmatching : r.violating = 0 := PathReport.explore_violating hreplay
  have hmax : max s.pathBudget 1 = s.pathBudget := Nat.max_eq_left hpositive
  refine ⟨fun hsites => ?_, htyped, hmatching, ?_⟩
  · obtain ⟨p, q, hp, -, hchecks, -⟩ := verify_of_admissible hadmissible
    have hrecord : p = ⟨.paths, p.outcome, r.text⟩ := by
      rw [hp, hmax, paths_record m hsites]
    refine ⟨p.outcome, ?_⟩
    rw [← hrecord, hchecks]
    simp
  · have houtcome : c.outcomeOf? .paths =
        some (paths m s.pathBudget signature examples e).record.outcome := by
      rw [outcomeOf_paths, if_pos (Bool.and_eq_true_iff.mpr (passed_of_admissible hadmissible)), hmax]
    rw [houtcome, Option.some.injEq, paths_passed_iff,
      PathReport.clean_iff_exercised hbudget htyped hmatching]
    rfl

/-- The two conditionals of a program, one in a branch of the other: three examples follow all four
assignments. Where the first takes its first branch, it does not matter what the second is to do. -/
theorem path_exploration_exact_nested :
    let t := Table.builtins
    let m := t.machine Settings.standard.limits
    let e : Term := .apply 12 [.apply 7 [.var 0, .lit (.int 0)], .apply 5 [.var 0],
      .apply 12 [.apply 6 [.var 0, .lit (.int 0)], .lit (.int 7), .var 0]]
    let examples : List Example :=
      [⟨[.int (-3)], .int 3⟩, ⟨[.int 0], .int 7⟩, ⟨[.int 4], .int 4⟩]
    let a := Assignment.choosing (e.sites t) fun _ => true
    let r := PathReport.explore m Settings.standard.pathBudget .int examples e
    ((m.forced [.int (-3)] a e).natural = true ∧ (m.forced [.int (-3)] a e).value = .ok (.int 3)) ∧
    (t.WellTyped ∧ Problem.signature examples = .ok ⟨[.int], .int⟩ ∧
      (verify t .standard ⟨[.int], .int⟩ examples e).admissible = true) ∧
    r.illTyped = 0 ∧ r.violating = 0 ∧ Exercised m examples e := by
  intro t m e examples a r
  have hnatural : (m.forced [.int (-3)] a e).natural = true := by decide +kernel
  have ht : t.WellTyped := by decide
  have hproblem : Problem.signature examples = .ok ⟨[.int], .int⟩ := rfl
  have hadmissible : (verify t .standard ⟨[.int], .int⟩ examples e).admissible = true := by
    decide +kernel
  have hpassed : (verify t .standard ⟨[.int], .int⟩ examples e).outcomeOf? .paths =
      some .passed := by decide +kernel
  obtain ⟨hvalue, hexact⟩ := path_exploration_exact
  obtain ⟨-, htyped, hmatching, hiff⟩ :=
    hexact t .standard examples ⟨[.int], .int⟩ e ht (by decide) (by decide) hproblem hadmissible
  have hexercised : Exercised m examples e := by
    rcases hiff.mp hpassed with hnone | ⟨-, hall⟩
    · exact absurd hnone (by decide)
    · exact hall
  exact ⟨⟨hnatural, (hvalue m [.int (-3)] a e ht.ternary hnatural (.int 3)).mpr rfl⟩,
    ⟨ht, hproblem, hadmissible⟩, htyped, hmatching, hexercised⟩

/-- What exactness needs. A conditional that declares a fourth parameter can be applied to four values, and
a forced run does so, but a term with four arguments is malformed. And an equality that declares an integer
as its result passes the check of types, so that the branch which the example does not take has a value of
the wrong type. -/
theorem path_exploration_misdeclared :
    (let t : Table := ⟨#[⟨0, "if", ⟨[.bool, .int, .int, .int], .int⟩, .builtin .cond, 1⟩]⟩
      let m := t.machine .standard
      let e : Term := .apply 0 [.lit (.bool true), .lit (.int 1), .lit (.int 2), .lit (.int 3)]
      t.Indexed ∧ t.Costed ∧ e.infer t [] = .ok .int ∧
        (m.forced [] (.choosing (e.sites t) fun _ => true) e).natural = true ∧
        (m.forced [] (.choosing (e.sites t) fun _ => true) e).value = .ok (.int 2) ∧
        m.eval e [] = .error (.arity "if" 3 4)) ∧
    (let t : Table := ⟨#[.ofBuiltin 0 .cond, ⟨1, "eq", ⟨[.int, .int], .int⟩, .builtin .eq, 1⟩]⟩
      let e : Term := .apply 0 [.var 0, .lit (.int 1), .apply 1 [.lit (.int 1), .lit (.int 1)]]
      let examples : List Example := [⟨[.bool true], .int 1⟩]
      (∀ p ∈ t.toList, p.body? = none) ∧ t.Indexed ∧ t.Costed ∧
        Problem.signature examples = .ok ⟨[.bool], .int⟩ ∧
        (verify t .standard ⟨[.bool], .int⟩ examples e).admissible = true ∧
        (PathReport.explore (t.machine .standard) Settings.standard.pathBudget .int examples
          e).illTyped = 1) := by
  decide +kernel

end Verification

end Exemplar
