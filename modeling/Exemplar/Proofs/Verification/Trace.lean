import Exemplar.Proofs.Eval
import Exemplar.Verification.Paths

/-!
# Traced evaluation

The ordinary evaluation of a term that notes the conditionals of the term it comes to and the branch
that it takes at each (`Machine.traced`); its value is that of the evaluation (`traced_value`). Where
the evaluation of an application has a value, its decisions are those of the arguments that were
evaluated, and of a conditional also the one at the root (`mem_decisions_conditional`,
`mem_decisions_strict`).
-/

namespace Exemplar

/-- The path of a conditional and the branch that was taken there: `true` is the first branch. -/
abbrev Decision := Term.Path × Bool

/-- A result, and the decisions on the way to it. -/
structure Traced (α : Type) where
  value : Result α
  decisions : List Decision
  deriving Repr

namespace Traced

variable {α β : Type}

def plain (r : Result α) : Traced α := ⟨r, []⟩

/-- What happens in the argument of an index. -/
def under (i : Nat) (r : Traced α) : Traced α :=
  ⟨r.value, r.decisions.map (fun d => (i :: d.1, d.2))⟩

/-- Goes on with the value, if there is one. -/
def andThen (r : Traced α) (next : α → Traced β) : Traced β :=
  match r.value with
  | .error f => ⟨.error f, r.decisions⟩
  | .ok a => ⟨(next a).value, r.decisions ++ (next a).decisions⟩

/-- The branch that a condition asks for, a decision at the root. -/
def decide (condition : Value) : Traced Bool :=
  match condition.toBool with
  | .error f => ⟨.error f, []⟩
  | .ok p => ⟨.ok p, [([], p)]⟩

@[simp] theorem plain_value (r : Result α) : (plain r).value = r := rfl

@[simp] theorem plain_decisions (r : Result α) : (plain r).decisions = [] := rfl

@[simp] theorem under_value (i : Nat) (r : Traced α) : (r.under i).value = r.value := rfl

theorem mem_under {i : Nat} {r : Traced α} {path : Term.Path} {b : Bool} :
    (path, b) ∈ (r.under i).decisions ↔ ∃ rest, path = i :: rest ∧ (rest, b) ∈ r.decisions := by
  rw [under, List.mem_map]
  constructor
  · rintro ⟨⟨rest, b'⟩, hmem, heq⟩
    obtain ⟨rfl, rfl⟩ := Prod.mk.inj heq
    exact ⟨rest, rfl, hmem⟩
  · rintro ⟨rest, rfl, hmem⟩
    exact ⟨(rest, b), hmem, rfl⟩

@[simp] theorem andThen_value (r : Traced α) (next : α → Traced β) :
    (r.andThen next).value = r.value >>= fun a => (next a).value := by
  rw [andThen]
  cases r.value <;> rfl

theorem andThen_decisions {r : Traced α} {a : α} (h : r.value = .ok a) (next : α → Traced β) :
    (r.andThen next).decisions = r.decisions ++ (next a).decisions := by
  rw [andThen, h]

@[simp] theorem decide_value (v : Value) : (decide v).value = v.toBool := by
  rw [decide]
  cases v.toBool <;> rfl

end Traced

namespace Machine

mutual

/-- The evaluation of a term on inputs, with its decisions at the conditionals of the term. -/
def traced (m : Machine) (inputs : List Value) : Term → Traced Value
  | .lit v => .plain (m.eval (.lit v) inputs)
  | .var i => .plain (m.eval (.var i) inputs)
  | .apply id args =>
    if m.table.conditional id then
      match args with
      | [c, x, y] =>
        (((m.traced inputs c).under 0).andThen .decide).andThen (fun taken =>
          if taken then (m.traced inputs x).under 1 else (m.traced inputs y).under 2)
      | _ => .plain (m.eval (.apply id args) inputs)
    else (m.tracedArgs inputs 0 args).andThen (fun vs => .plain (m.apply id vs))

/-- The evaluation of arguments, the first of which has index `i`. -/
def tracedArgs (m : Machine) (inputs : List Value) (i : Nat) : List Term → Traced (List Value)
  | [] => .plain (.ok [])
  | e :: es =>
    ((m.traced inputs e).under i).andThen (fun v =>
      (m.tracedArgs inputs (i + 1) es).andThen (fun vs => .plain (.ok (v :: vs))))

end

variable {m : Machine} {inputs : List Value}

/-! ## The value -/

theorem tracedArgs_value {args : List Term}
    (h : ∀ a ∈ args, (m.traced inputs a).value = m.eval a inputs) (i : Nat) :
    (m.tracedArgs inputs i args).value =
      m.evalsWith (m.applyAt (m.limits.callDepth + 1)) inputs args := by
  induction args generalizing i with
  | nil => rfl
  | cons a args ih =>
    obtain ⟨hhead, htail⟩ := List.forall_mem_cons.mp h
    rw [tracedArgs, evalsWith, Traced.andThen_value, Traced.under_value, hhead]
    simp only [Traced.andThen_value, ih htail, Traced.plain_value]
    rfl

/-- **The value of a traced evaluation is that of the ordinary one.** -/
theorem traced_value (e : Term) : (m.traced inputs e).value = m.eval e inputs := by
  induction e using Term.inductionOn with
  | lit v => rfl
  | var i => rfl
  | apply id args ih =>
    rw [traced.eq_def]
    by_cases hid : m.table.conditional id = true
    · simp only [hid, if_true]
      split
      · rename_i c x y
        rw [eval_apply_conditional hid, Traced.andThen_value, Traced.andThen_value,
          Traced.under_value, ih c (by simp), bind_assoc]
        simp only [Traced.decide_value]
        congr 1
        funext v
        congr 1
        funext p
        cases p
        · exact ih y (by simp)
        · exact ih x (by simp)
      · rfl
    · have hid : m.table.conditional id = false := by simpa using hid
      rw [eval_apply_strict hid, ← tracedArgs_value ih 0]
      simp only [hid]
      exact Traced.andThen_value _ _

/-! ## The decisions -/

theorem mem_decisions_conditional {id : PrimId} (hid : m.table.conditional id = true)
    {c : Term} {p : Bool} (hc : m.eval c inputs = .ok (.bool p)) (x y : Term) (path : Term.Path)
    (b : Bool) :
    (path, b) ∈ (m.traced inputs (.apply id [c, x, y])).decisions ↔
      (∃ rest, path = 0 :: rest ∧ (rest, b) ∈ (m.traced inputs c).decisions) ∨
      (path = [] ∧ b = p) ∨
      ∃ rest, path = (if p then 1 else 2) :: rest ∧
        (rest, b) ∈ (m.traced inputs (if p then x else y)).decisions := by
  have hvalue : ((m.traced inputs c).under 0).value = .ok (.bool p) :=
    (traced_value c).trans hc
  have hcondition : (((m.traced inputs c).under 0).andThen .decide).value = .ok p := by
    rw [Traced.andThen_value, hvalue]
    exact Traced.decide_value _
  rw [traced, if_pos hid, Traced.andThen_decisions hcondition, Traced.andThen_decisions hvalue]
  have hroot : (path, b) ∈ (Traced.decide (.bool p)).decisions ↔ path = [] ∧ b = p := by
    simp [Traced.decide, Value.toBool]
  rw [List.mem_append, List.mem_append, Traced.mem_under, hroot, or_assoc]
  cases p <;> simp only [Bool.false_eq_true, if_false, if_true, Traced.mem_under]

theorem mem_decisions_args {args : List Term} {vs : List Value}
    (h : List.Forall₂ (fun e v => m.eval e inputs = .ok v) args vs) {i : Nat} {path : Term.Path}
    {b : Bool} :
    (path, b) ∈ (m.tracedArgs inputs i args).decisions ↔
      ∃ j a rest, args[j]? = some a ∧ path = (i + j) :: rest ∧
        (rest, b) ∈ (m.traced inputs a).decisions := by
  induction h generalizing i with
  | nil => simp [tracedArgs]
  | @cons a v args vs hv hvs ih =>
    have hhead : ((m.traced inputs a).under i).value = .ok v := (traced_value a).trans hv
    have htail : (m.tracedArgs inputs (i + 1) args).value = .ok vs := by
      rw [tracedArgs_value fun a _ => traced_value a, evalsWith_eq_ok]
      exact hvs
    rw [tracedArgs, Traced.andThen_decisions hhead, Traced.andThen_decisions htail,
      Traced.plain_decisions, List.append_nil, List.mem_append, Traced.mem_under, ih]
    constructor
    · rintro (⟨rest, rfl, hmem⟩ | ⟨j, e, rest, hget, rfl, hmem⟩)
      · exact ⟨0, a, rest, rfl, rfl, hmem⟩
      · exact ⟨j + 1, e, rest, hget, by rw [Nat.add_right_comm, Nat.add_assoc], hmem⟩
    · rintro ⟨j, e, rest, hget, rfl, hmem⟩
      cases j with
      | zero =>
        obtain rfl : a = e := by simpa using hget
        exact .inl ⟨rest, rfl, hmem⟩
      | succ j => exact .inr ⟨j, e, rest, hget, by rw [Nat.add_right_comm, Nat.add_assoc], hmem⟩

theorem mem_decisions_strict {id : PrimId} (hid : m.table.conditional id = false)
    {args : List Term} {vs : List Value}
    (h : List.Forall₂ (fun e v => m.eval e inputs = .ok v) args vs) (path : Term.Path) (b : Bool) :
    (path, b) ∈ (m.traced inputs (.apply id args)).decisions ↔
      ∃ i a rest, args[i]? = some a ∧ path = i :: rest ∧
        (rest, b) ∈ (m.traced inputs a).decisions := by
  have hvalue : (m.tracedArgs inputs 0 args).value = .ok vs := by
    rw [tracedArgs_value fun a _ => traced_value a, evalsWith_eq_ok]
    exact h
  rw [traced.eq_def]
  simp only [hid]
  rw [if_neg Bool.false_ne_true, Traced.andThen_decisions hvalue, Traced.plain_decisions,
    List.append_nil, mem_decisions_args h]
  simp only [Nat.zero_add]

end Machine

end Exemplar
