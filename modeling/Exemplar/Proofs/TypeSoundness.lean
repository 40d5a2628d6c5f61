import Exemplar.Proofs.Eval

/-!
# Type soundness

**A well-typed program evaluates to a value of its type, or ends in a run-time fault**
(`type_soundness`): division by zero, overflow, an empty list, an iteration that was cut off, or calls
that nest too deep. It never meets an unbound variable, an unknown primitive, a wrong number of
arguments or a value of another kind than an operation asks for. The table may hold bodies that call
each other without end.

Proof. `Safe P r` says that `r` is a value with `P` or a run-time fault; it passes through binds
(`Safe.bind`). A caller is safe if it is safe on arguments of the parameter types (`SafeCaller`). Given
a safe caller, every builtin operation is safe (`builtin_safe`), so is the evaluation of a term, by
induction on the term (`evalWith_safe`), and so is the application of any primitive
(`applyWith_safe`). Calls with `n` levels left are safe by induction on `n` (`callAt_safe`): a call
with no level left ends in a run-time fault, which is why recursive bodies do no harm.
-/

namespace Exemplar

/-- The faults that typing does not rule out. -/
def Fault.runtime : Fault → Bool
  | .divisionByZero => true
  | .overflow => true
  | .emptyList => true
  | .fixpointDiverged _ => true
  | .callDepthExceeded _ => true
  | _ => false

/-! ## Safe results -/

/-- A value with a property, or a run-time fault. -/
def Safe {α : Type} (P : α → Prop) : Result α → Prop
  | .ok a => P a
  | .error f => f.runtime = true

namespace Safe

variable {α β : Type} {P : α → Prop} {Q : β → Prop} {r : Result α}

theorem bind (h : Safe P r) {f : α → Result β} (hf : ∀ a, P a → Safe Q (f a)) :
    Safe Q (r >>= f) := by
  cases r with
  | error e => exact h
  | ok a => exact hf a h

theorem of_eq_ok (h : Safe P r) {a : α} (hr : r = .ok a) : P a := by
  subst hr
  exact h

end Safe

theorem Safe.toInt {t : Table} {r : Result Value} (h : Safe (Value.HasTy t · .int) r) :
    Safe (fun _ => True) (r >>= Value.toInt) := by
  refine h.bind fun v hv => ?_
  obtain ⟨n, rfl⟩ := Value.hasTy_int.mp hv
  trivial

theorem Safe.toBool {t : Table} {r : Result Value} (h : Safe (Value.HasTy t · .bool) r) :
    Safe (fun _ => True) (r >>= Value.toBool) := by
  refine h.bind fun v hv => ?_
  obtain ⟨b, rfl⟩ := Value.hasTy_bool.mp hv
  trivial

namespace Machine

variable {m : Machine} {t : Table} {call : Caller}

/-! ## Builtin operations -/

/-- Calls are safe on arguments of the parameter types. -/
def SafeCaller (t : Table) (call : Caller) : Prop :=
  ∀ f s args, f.infer t = .ok s → List.Forall₂ (Value.HasTy t) args s.params →
    Safe (Value.HasTy t · s.ret) (call f args)

theorem checked_safe (n : Int) : Safe (Value.HasTy t · .int) (m.checked n) := by
  rw [checked]
  split <;> rfl

theorem iterate_safe (hcall : SafeCaller t call) {f : Fn} (hf : f.infer t = .ok ⟨[.int], .int⟩)
    (n : Nat) (x : Int) : Safe (Value.HasTy t · .int) (m.iterate call f n x) := by
  induction n generalizing x with
  | zero => rfl
  | succ n ih =>
    have hstep := (hcall f _ [.int x] hf (.cons rfl .nil)).toInt
    rw [iterate, ← bind_assoc]
    refine hstep.bind fun y _ => ?_
    split
    · rfl
    · exact ih y

theorem mapInts_safe (hcall : SafeCaller t call) {f : Fn} (hf : f.infer t = .ok ⟨[.int], .int⟩)
    (xs : List Int) : Safe (fun _ => True) (mapInts call f xs) := by
  induction xs with
  | nil => trivial
  | cons x xs ih =>
    have hhead := (hcall f _ [.int x] hf (.cons rfl .nil)).toInt
    rw [mapInts, ← bind_assoc]
    exact hhead.bind fun y _ => ih.bind fun ys _ => trivial

theorem filterInts_safe (hcall : SafeCaller t call) {f : Fn}
    (hf : f.infer t = .ok ⟨[.int], .bool⟩) (xs : List Int) :
    Safe (fun _ => True) (filterInts call f xs) := by
  induction xs with
  | nil => trivial
  | cons x xs ih =>
    have hhead := (hcall f _ [.int x] hf (.cons rfl .nil)).toBool
    rw [filterInts, ← bind_assoc]
    exact hhead.bind fun keep _ => ih.bind fun ys _ => trivial

theorem foldInts_safe (hcall : SafeCaller t call) {f : Fn}
    (hf : f.infer t = .ok ⟨[.int, .int], .int⟩) (acc : Int) (xs : List Int) :
    Safe (fun _ => True) (foldInts call f acc xs) := by
  induction xs generalizing acc with
  | nil => trivial
  | cons x xs ih =>
    have hhead := (hcall f _ [.int acc, .int x] hf (.cons rfl (.cons rfl .nil))).toInt
    rw [foldInts, ← bind_assoc]
    exact hhead.bind fun next _ => ih next

theorem builtin_safe (hcall : SafeCaller t call) (op : Builtin) {args : List Value}
    (hargs : List.Forall₂ (Value.HasTy t) args op.signature.params) :
    Safe (Value.HasTy t · op.signature.ret) (m.builtin call op args) := by
  cases op with
  | add | sub | mul =>
    rcases hargs with _ | ⟨ha, _ | ⟨hb, _ | _⟩⟩
    obtain ⟨x, rfl⟩ := Value.hasTy_int.mp ha
    obtain ⟨y, rfl⟩ := Value.hasTy_int.mp hb
    exact checked_safe _
  | div =>
    rcases hargs with _ | ⟨ha, _ | ⟨hb, _ | _⟩⟩
    obtain ⟨x, rfl⟩ := Value.hasTy_int.mp ha
    obtain ⟨y, rfl⟩ := Value.hasTy_int.mp hb
    show Safe _ (if y = 0 then Except.error .divisionByZero else m.checked (x.tdiv y))
    split
    · rfl
    · exact checked_safe _
  | mod =>
    rcases hargs with _ | ⟨ha, _ | ⟨hb, _ | _⟩⟩
    obtain ⟨x, rfl⟩ := Value.hasTy_int.mp ha
    obtain ⟨y, rfl⟩ := Value.hasTy_int.mp hb
    show Safe _ (if y = 0 then Except.error .divisionByZero
      else if m.fits (x.tdiv y) then .ok (Value.int (x.emod y)) else .error .overflow)
    split
    · rfl
    · split <;> rfl
  | neg =>
    rcases hargs with _ | ⟨ha, _ | _⟩
    obtain ⟨x, rfl⟩ := Value.hasTy_int.mp ha
    exact checked_safe _
  | eq | lt | gt =>
    rcases hargs with _ | ⟨ha, _ | ⟨hb, _ | _⟩⟩
    obtain ⟨x, rfl⟩ := Value.hasTy_int.mp ha
    obtain ⟨y, rfl⟩ := Value.hasTy_int.mp hb
    rfl
  | and | or =>
    rcases hargs with _ | ⟨ha, _ | ⟨hb, _ | _⟩⟩
    obtain ⟨p, rfl⟩ := Value.hasTy_bool.mp ha
    obtain ⟨q, rfl⟩ := Value.hasTy_bool.mp hb
    cases p <;> rfl
  | not =>
    rcases hargs with _ | ⟨ha, _ | _⟩
    obtain ⟨p, rfl⟩ := Value.hasTy_bool.mp ha
    rfl
  | cond =>
    rcases hargs with _ | ⟨hc, _ | ⟨ha, _ | ⟨hb, _ | _⟩⟩⟩
    obtain ⟨p, rfl⟩ := Value.hasTy_bool.mp hc
    cases p with
    | true => exact ha
    | false => exact hb
  | identity =>
    rcases hargs with _ | ⟨ha, _ | _⟩
    obtain ⟨x, rfl⟩ := Value.hasTy_int.mp ha
    rfl
  | compose =>
    rcases hargs with _ | ⟨hf', _ | ⟨hg', _ | _⟩⟩
    obtain ⟨f, rfl, hf⟩ := Value.hasTy_funcTy.mp hf'
    obtain ⟨g, rfl, hg⟩ := Value.hasTy_funcTy.mp hg'
    exact Value.hasTy_funcTy.mpr ⟨_, rfl, Fn.infer_compose.mpr ⟨_, _, hf, hg, rfl, rfl⟩⟩
  | fix =>
    rcases hargs with _ | ⟨hf', _ | ⟨ha, _ | _⟩⟩
    obtain ⟨f, rfl, hf⟩ := Value.hasTy_funcTy.mp hf'
    obtain ⟨x, rfl⟩ := Value.hasTy_int.mp ha
    exact iterate_safe hcall hf _ _
  | map =>
    rcases hargs with _ | ⟨hf', _ | ⟨ha, _ | _⟩⟩
    obtain ⟨f, rfl, hf⟩ := Value.hasTy_funcTy.mp hf'
    obtain ⟨xs, rfl⟩ := Value.hasTy_list.mp ha
    exact (mapInts_safe hcall hf xs).bind fun ys _ => rfl
  | filter =>
    rcases hargs with _ | ⟨hf', _ | ⟨ha, _ | _⟩⟩
    obtain ⟨f, rfl, hf⟩ := Value.hasTy_funcTy.mp hf'
    obtain ⟨xs, rfl⟩ := Value.hasTy_list.mp ha
    exact (filterInts_safe hcall hf xs).bind fun ys _ => rfl
  | fold =>
    rcases hargs with _ | ⟨hf', _ | ⟨ha, _ | ⟨hb, _ | _⟩⟩⟩
    obtain ⟨f, rfl, hf⟩ := Value.hasTy_funcTy.mp hf'
    obtain ⟨x, rfl⟩ := Value.hasTy_int.mp ha
    obtain ⟨xs, rfl⟩ := Value.hasTy_list.mp hb
    exact (foldInts_safe hcall hf x xs).bind fun y _ => rfl
  | head | tail =>
    rcases hargs with _ | ⟨ha, _ | _⟩
    obtain ⟨xs, rfl⟩ := Value.hasTy_list.mp ha
    cases xs <;> rfl
  | cons =>
    rcases hargs with _ | ⟨ha, _ | ⟨hb, _ | _⟩⟩
    obtain ⟨x, rfl⟩ := Value.hasTy_int.mp ha
    obtain ⟨xs, rfl⟩ := Value.hasTy_list.mp hb
    rfl
  | length =>
    rcases hargs with _ | ⟨ha, _ | _⟩
    obtain ⟨xs, rfl⟩ := Value.hasTy_list.mp ha
    rfl

/-! ## Terms and calls -/

/-- Applications of primitives are safe on arguments of the parameter types. -/
def SafeApply (t : Table) (apply : PrimId → List Value → Result Value) : Prop :=
  ∀ id p args, t.get? id = some p → List.Forall₂ (Value.HasTy t) args p.signature.params →
    Safe (Value.HasTy t · p.signature.ret) (apply id args)

theorem SafeCaller.apply (hcall : SafeCaller t call) :
    SafeApply t (fun id => call (.primitive id)) := by
  intro id p args hget hargs
  exact hcall (.primitive id) p.signature args (by rw [Fn.infer, hget]) hargs

theorem evalsWith_safe {apply : PrimId → List Value → Result Value} {inputs : List Value}
    {tys : List Ty} {es : List Term} {params : List Ty}
    (heval : ∀ e ∈ es, ∀ ty, e.infer m.table tys = .ok ty →
      Safe (Value.HasTy m.table · ty) (m.evalWith apply inputs e))
    (hes : List.Forall₂ (fun e ty => e.infer m.table tys = .ok ty) es params) :
    Safe (List.Forall₂ (Value.HasTy m.table) · params) (m.evalsWith apply inputs es) := by
  induction hes with
  | nil => exact .nil
  | cons he _ ih =>
    rw [evalsWith]
    refine (heval _ List.mem_cons_self _ he).bind fun v hv => ?_
    refine (ih fun e hmem => heval e (List.mem_cons_of_mem _ hmem)).bind fun vs hvs => ?_
    exact .cons hv hvs

theorem evalWith_safe (ht : m.table.WellTyped) {apply : PrimId → List Value → Result Value}
    (happly : SafeApply m.table apply) {inputs : List Value} {tys : List Ty}
    (hinputs : List.Forall₂ (Value.HasTy m.table) inputs tys) (e : Term) :
    ∀ ty, e.infer m.table tys = .ok ty →
      Safe (Value.HasTy m.table · ty) (m.evalWith apply inputs e) := by
  induction e using Term.inductionOn with
  | lit v =>
    intro ty hty
    exact hty
  | var i =>
    intro ty hty
    obtain ⟨hi, hty⟩ := List.getElem?_eq_some_iff.mp (Term.infer_var.mp hty)
    have hi' : i < inputs.length := hinputs.length_eq ▸ hi
    rw [evalWith, List.getElem?_eq_getElem hi']
    exact hty ▸ hinputs.get hi' hi
  | apply id args ih =>
    intro ty hty
    obtain ⟨p, hget, rfl, hargs⟩ := Term.infer_apply.mp hty
    rw [evalWith.eq_def]
    by_cases hid : m.table.conditional id = true
    · -- a conditional has three arguments, of which the condition and one branch are evaluated
      obtain ⟨p', hget', hrule⟩ := Table.conditional_iff.mp hid
      obtain rfl : p = p' := Option.some.inj (hget.symm.trans hget')
      have hsig : p.signature = Builtin.cond.signature := by
        have hp := ht p (Table.mem_of_get? hget)
        rwa [Primitive.WellTyped, hrule] at hp
      rw [hsig] at hargs ⊢
      rcases hargs with _ | ⟨hc, _ | ⟨ha, _ | ⟨hb, _ | _⟩⟩⟩
      simp only [hid, if_true]
      refine (ih _ (by simp) _ hc).bind fun v hv => ?_
      obtain ⟨q, rfl⟩ := Value.hasTy_bool.mp hv
      cases q with
      | true => exact ih _ (by simp) _ ha
      | false => exact ih _ (by simp) _ hb
    · simp only [hid]
      exact (evalsWith_safe ih hargs).bind fun vs hvs => happly id p vs hget hvs

theorem applyWith_safe (ht : m.table.WellTyped) (hcall : SafeCaller m.table call) :
    SafeApply m.table (m.applyWith call) := by
  intro id p args hget hargs
  have hp := ht p (Table.mem_of_get? hget)
  rw [applyWith, hget]
  simp only
  rw [if_pos (show args.length = p.arity from hargs.length_eq)]
  cases hrule : p.rule with
  | builtin op =>
    rw [Primitive.WellTyped, hrule] at hp
    simp only at hp ⊢
    rw [hp] at hargs ⊢
    exact builtin_safe hcall op hargs
  | learned body =>
    rw [Primitive.WellTyped, hrule] at hp
    exact evalWith_safe ht hcall.apply hargs body _ hp

theorem callAt_safe (ht : m.table.WellTyped) (n : Nat) : SafeCaller m.table (m.callAt n) := by
  induction n with
  | zero =>
    intro f s args _ _
    rfl
  | succ n ih =>
    intro f s args hf hargs
    cases f with
    | primitive id =>
      rw [Fn.infer] at hf
      cases hget : m.table.get? id with
      | none => simp [hget] at hf
      | some p =>
        obtain rfl : p.signature = s := by simpa [hget] using hf
        exact applyWith_safe ht ih id p args hget hargs
    | compose outer inner =>
      obtain ⟨o, i, ho, hi, hparams, rfl⟩ := Fn.infer_compose.mp hf
      rw [callAt]
      refine (ih inner i args hi hargs).bind fun mid hmid => ?_
      exact ih outer o [mid] ho (hparams ▸ .cons hmid .nil)

theorem eval_safe (ht : m.table.WellTyped) {e : Term} {tys : List Ty} {ty : Ty}
    (hty : e.infer m.table tys = .ok ty) {inputs : List Value}
    (hinputs : List.Forall₂ (Value.HasTy m.table) inputs tys) :
    Safe (Value.HasTy m.table · ty) (m.eval e inputs) :=
  evalWith_safe ht (callAt_safe ht (m.limits.callDepth + 1)).apply hinputs e ty hty

/-- **Type soundness.** Over a well-typed table, the evaluation of a well-typed term, the application
of a primitive and the call of a function value, on arguments of the parameter types, have a value of
the result type or end in a run-time fault. -/
theorem type_soundness (m : Machine) (ht : m.table.WellTyped) :
    (∀ e tys ty inputs, e.infer m.table tys = .ok ty →
      List.Forall₂ (Value.HasTy m.table) inputs tys →
        Safe (Value.HasTy m.table · ty) (m.eval e inputs)) ∧
    (∀ id p args, m.table.get? id = some p →
      List.Forall₂ (Value.HasTy m.table) args p.signature.params →
        Safe (Value.HasTy m.table · p.signature.ret) (m.apply id args)) ∧
    (∀ f s args, f.infer m.table = .ok s → List.Forall₂ (Value.HasTy m.table) args s.params →
        Safe (Value.HasTy m.table · s.ret) (m.call f args)) := by
  refine ⟨fun e tys ty inputs hty hinputs => eval_safe ht hty hinputs, ?_, ?_⟩
  · exact (callAt_safe ht (m.limits.callDepth + 1)).apply
  · exact callAt_safe ht m.limits.callDepth

/-- A body that calls itself without end, beside builtin operations: its call is cut off, and so is
that of a composition with it. -/
theorem type_soundness_forever :
    let m := Table.machine ⟨#[.ofBuiltin 0 .add, .ofBuiltin 1 .neg, .ofBuiltin 2 .map,
      .ofBody 3 "forever" ⟨[.int], .int⟩ (.apply 3 [.var 0]) 1]⟩ .standard
    m.table.WellTyped ∧
    Safe (Value.HasTy m.table · .int) (m.eval (.apply 3 [.apply 0 [.var 0, .var 0]]) [.int 1]) ∧
    Safe (Value.HasTy m.table · .list) (m.apply 2 [.func (.primitive 1), .list [1, 2]]) ∧
    Safe (Value.HasTy m.table · .int)
      (m.call (.compose (.primitive 3) (.primitive 0)) [.int 1, .int 2]) := by
  intro m
  have ht : m.table.WellTyped := by decide
  obtain ⟨heval, happly, hcall⟩ := type_soundness m ht
  refine ⟨ht, ?_, ?_, ?_⟩
  · exact heval (.apply 3 [.apply 0 [.var 0, .var 0]]) [.int] .int [.int 1] rfl (.cons rfl .nil)
  · exact happly 2 (.ofBuiltin 2 .map) [.func (.primitive 1), .list [1, 2]] rfl
      (.cons rfl (.cons rfl .nil))
  · exact hcall (.compose (.primitive 3) (.primitive 0)) ⟨[.int, .int], .int⟩ [.int 1, .int 2] rfl
      (.cons rfl (.cons rfl .nil))

end Machine

end Exemplar
