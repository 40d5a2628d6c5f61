import Exemplar.Eval
import Exemplar.Proofs.Result
import Exemplar.Proofs.Term
import Exemplar.Proofs.Typing

/-!
# Evaluation through values

What an application evaluates to depends on its arguments only through their values
(`eval_apply_eq_ok`): where all arguments have values, the lazy conditional of a term agrees with the
strict one that is applied to values, provided that it declares no further parameters. Conversely,
`eval_apply_inversion` says which arguments have values where an application has one. A learned
primitive is its body one level deeper (`applyAt_learned`).
-/

namespace Exemplar

theorem Table.conditional_iff {t : Table} {id : PrimId} :
    t.conditional id = true ↔ ∃ p, t.get? id = some p ∧ p.rule = .builtin .cond := by
  rw [conditional, beq_iff_eq, builtin?_eq_some]

namespace Machine

variable {m : Machine} {inputs : List Value}

theorem evalsWith_eq_ok {apply : PrimId → List Value → Result Value} {es : List Term}
    {vs : List Value} :
    m.evalsWith apply inputs es = .ok vs ↔
      List.Forall₂ (fun e v => m.evalWith apply inputs e = .ok v) es vs := by
  induction es generalizing vs with
  | nil => cases vs <;> simp [evalsWith]
  | cons e es ih =>
    rw [evalsWith, bind_eq_ok, List.forall₂_cons_left_iff]
    constructor
    · rintro ⟨v, hv, htail⟩
      obtain ⟨ws, hws, hvs⟩ := bind_eq_ok.mp htail
      exact ⟨v, ws, hv, ih.mp hws, (pure_eq_ok.mp hvs).symm⟩
    · rintro ⟨v, ws, hv, hws, rfl⟩
      exact ⟨v, hv, bind_eq_ok.mpr ⟨ws, ih.mpr hws, rfl⟩⟩

theorem eval_apply_strict {id : PrimId} (hid : m.table.conditional id = false) (args : List Term) :
    m.eval (.apply id args) inputs =
      m.evalsWith (m.applyAt (m.limits.callDepth + 1)) inputs args >>= m.apply id := by
  rw [eval, evalAt, evalWith.eq_def]
  simp only [hid]
  rfl

theorem eval_apply_conditional {id : PrimId} (hid : m.table.conditional id = true) (c a b : Term) :
    m.eval (.apply id [c, a, b]) inputs =
      m.eval c inputs >>= fun v => v.toBool >>= fun p =>
        if p then m.eval a inputs else m.eval b inputs := by
  rw [eval, evalAt, evalWith, if_pos hid]
  rfl

theorem eval_apply_malformed {id : PrimId} (hid : m.table.conditional id = true) {args : List Term}
    (hlength : args.length ≠ 3) :
    m.eval (.apply id args) inputs = .error (.arity Builtin.cond.name 3 args.length) := by
  rw [eval, evalAt, evalWith.eq_def]
  simp only [hid, if_true]
  split
  · simp at hlength
  · rfl

/-! ## Arguments -/

theorem mem_of_argument {args : List Value} {i : Nat} {v : Value} (h : argument args i = .ok v) :
    v ∈ args := by
  rw [argument] at h
  split at h
  · rename_i w hget
    exact Except.ok.inj h ▸ List.mem_of_getElem? hget
  · cases h

theorem popArg_eq_ok {args rest : List Value} {v : Value} :
    popArg args = .ok (v, rest) ↔ args = rest ++ [v] := by
  rw [popArg]
  constructor
  · intro h
    split at h
    · rename_i w hlast
      obtain ⟨rfl, rfl⟩ := Prod.mk.inj (Except.ok.inj h)
      exact (List.dropLast_append_getLast? w hlast).symm
    · cases h
  · rintro rfl
    simp

/-! ## Applications -/

theorem builtin_cond_eq_ok {call : Caller} {vs : List Value} (hvs : vs.length ≤ 3) {v : Value} :
    m.builtin call .cond vs = .ok v ↔ ∃ p a b, vs = [.bool p, a, b] ∧ v = if p then a else b := by
  rcases vs with _ | ⟨c, _ | ⟨a, _ | ⟨b, _ | ⟨d, vs⟩⟩⟩⟩
  case cons.cons.cons.nil =>
    cases c <;>
      simp [builtin, popArg, boolArg, argument, Value.toBool, bind, Except.bind, pure, Except.pure,
        eq_comm]
  case cons.cons.cons.cons =>
    simp only [List.length_cons] at hvs
    omega
  all_goals simp [builtin, popArg, boolArg, argument, bind, Except.bind]

theorem apply_conditional_eq_ok {id : PrimId} {p : Primitive} (hget : m.table.get? id = some p)
    (hrule : p.rule = .builtin .cond) (hp : p.arity ≤ 3) {vs : List Value}
    (harity : vs.length = p.arity) {v : Value} :
    m.apply id vs = .ok v ↔ ∃ q a b, vs = [.bool q, a, b] ∧ v = if q then a else b := by
  rw [apply, applyAt, callAt, applyWith, hget]
  simp only [hrule, harity, if_true]
  exact builtin_cond_eq_ok (harity ▸ hp)

/-- **The value of an application depends on the values of its arguments alone.** -/
theorem eval_apply_eq_ok (ht : m.table.Ternary) {id : PrimId} {p : Primitive}
    (hget : m.table.get? id = some p) {args : List Term} (harity : args.length = p.arity)
    {vs : List Value}
    (hargs : List.Forall₂ (fun e v => m.eval e inputs = .ok v) args vs) {v : Value} :
    m.eval (.apply id args) inputs = .ok v ↔ m.apply id vs = .ok v := by
  by_cases hid : m.table.conditional id = true
  · obtain ⟨p', hget', hrule⟩ := Table.conditional_iff.mp hid
    obtain rfl : p = p' := Option.some.inj (hget.symm.trans hget')
    have hternary : p.arity ≤ 3 := ht p (Table.mem_of_get? hget) hrule
    rw [apply_conditional_eq_ok hget hrule hternary (hargs.length_eq ▸ harity)]
    by_cases hlength : args.length = 3
    · -- the branch that is not taken has a value too, so nothing is lost by evaluating it
      obtain ⟨c, a, b, rfl⟩ := List.length_eq_three.mp hlength
      rcases hargs with _ | ⟨hc, _ | ⟨ha, _ | ⟨hb, _ | _⟩⟩⟩
      rename_i vc va vb
      rw [eval_apply_conditional hid, hc, ha, hb]
      cases vc with
      | bool q => cases q <;> simp [bind, Except.bind, Value.toBool, eq_comm]
      | _ => simp [bind, Except.bind, Value.toBool]
    · rw [eval_apply_malformed hid hlength]
      constructor
      · intro h
        cases h
      · rintro ⟨q, a, b, rfl, -⟩
        exact absurd hargs.length_eq hlength
  · rw [eval_apply_strict (by simpa using hid), evalsWith_eq_ok.mpr hargs]
    rfl

/-- Where an application has a value: a conditional has three arguments, of which the condition and
the chosen branch have values; of any other primitive all arguments have values. -/
theorem eval_apply_inversion {id : PrimId} {args : List Term} {v : Value}
    (h : m.eval (.apply id args) inputs = .ok v) :
    (m.table.conditional id = true ∧ ∃ c x y p, args = [c, x, y] ∧
      m.eval c inputs = .ok (.bool p) ∧ m.eval (if p then x else y) inputs = .ok v) ∨
    (m.table.conditional id = false ∧ ∃ vs,
      List.Forall₂ (fun e v => m.eval e inputs = .ok v) args vs ∧ m.apply id vs = .ok v) := by
  by_cases hid : m.table.conditional id = true
  · refine .inl ⟨hid, ?_⟩
    by_cases hlength : args.length = 3
    · obtain ⟨c, x, y, rfl⟩ := List.length_eq_three.mp hlength
      rw [eval_apply_conditional hid] at h
      obtain ⟨w, hw, h⟩ := bind_eq_ok.mp h
      obtain ⟨p, hp, h⟩ := bind_eq_ok.mp h
      obtain ⟨p, rfl⟩ : ∃ p, w = .bool p := by
        cases w <;> simp [Value.toBool] at hp ⊢
      obtain rfl := Except.ok.inj hp
      refine ⟨c, x, y, p, rfl, hw, ?_⟩
      cases p <;> exact h
    · rw [eval_apply_malformed hid hlength] at h
      cases h
  · have hid : m.table.conditional id = false := by simpa using hid
    rw [eval_apply_strict hid] at h
    obtain ⟨vs, hvs, h⟩ := bind_eq_ok.mp h
    exact .inr ⟨hid, vs, evalsWith_eq_ok.mp hvs, h⟩

/-! ## Learned primitives -/

theorem applyAt_learned {id : PrimId} {p : Primitive} {body : Term} {args : List Value}
    (hget : m.table.get? id = some p) (hrule : p.rule = .learned body)
    (hlength : args.length = p.arity) (n : Nat) :
    m.applyAt (n + 1) id args = m.evalAt n args body := by
  rw [applyAt, callAt, applyWith, hget]
  simp only [hlength, hrule, if_true]
  rfl

end Machine

end Exemplar
