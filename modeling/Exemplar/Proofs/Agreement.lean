import Exemplar.Proofs.Eval
import Exemplar.Proofs.Reach

/-!
# Evaluations that agree

Two machines evaluate alike on what they have in common: the same primitives at the positions of a
scope that bodies do not lead out of, and the same arithmetic. They may differ elsewhere in their
tables, in their limits and in the levels that are left.

`Agree τ P r r'` relates what the two come to: a value with `P` is the value of both, and a fault of the
first is met by the second as a tolerance `τ` says. It passes through binds (`Agree.bind`), so every
builtin operation keeps it (`builtin_agree`), the evaluation of a term by induction on the term
(`evalWith_agree`), the application of a primitive (`applyWith_agree`), and calls by induction on the
levels of the first machine (`callAt_agree`). A machine with itself, for more and for fewer levels, is a
case of it (`evalAt_mono`).
-/

namespace Exemplar

/-! ## Scopes -/

/-- The positions that a value names. -/
def Value.primitives : Value → List PrimId
  | .func f => f.primitives
  | _ => []

/-- A value names no position outside of a scope. -/
def Value.Within (S : PrimId → Prop) (v : Value) : Prop := ∀ id ∈ v.primitives, S id

/-- A list of values names no position outside of a scope. -/
def Value.AllWithin (S : PrimId → Prop) (vs : List Value) : Prop := ∀ v ∈ vs, v.Within S

namespace Value

variable {S : PrimId → Prop}

@[simp] theorem within_int (n : Int) : (Value.int n).Within S := by simp [Within, primitives]

@[simp] theorem within_bool (b : Bool) : (Value.bool b).Within S := by simp [Within, primitives]

@[simp] theorem within_list (xs : List Int) : (Value.list xs).Within S := by
  simp [Within, primitives]

@[simp] theorem within_func (f : Fn) : (Value.func f).Within S ↔ ∀ id ∈ f.primitives, S id := .rfl

@[simp] theorem allWithin_nil : AllWithin S [] := by simp [AllWithin]

@[simp] theorem allWithin_cons {v : Value} {vs : List Value} :
    AllWithin S (v :: vs) ↔ v.Within S ∧ AllWithin S vs := List.forall_mem_cons

theorem allWithin_true (vs : List Value) : AllWithin (fun _ => True) vs := fun _ _ _ _ => trivial

end Value

/-! ## Results -/

/-- What the faults of one evaluation mean for another one: an excused fault says nothing of it, any
other fault is matched by one of its own. -/
structure Tolerance where
  excused : Fault → Prop
  matched : Fault → Fault → Prop

/-- The second result is the value of the first one, which has a property; where the first one is a
fault, the second one is as the tolerance says. -/
def Agree {α : Type} (τ : Tolerance) (P : α → Prop) : Result α → Result α → Prop
  | .ok a, r' => r' = .ok a ∧ P a
  | .error f, r' => τ.excused f ∨ ∃ f', r' = .error f' ∧ τ.matched f f'

namespace Agree

variable {α β : Type} {τ : Tolerance} {P : α → Prop} {Q : β → Prop} {r r' : Result α}

theorem bind (h : Agree τ P r r') {f f' : α → Result β}
    (hf : ∀ a, P a → Agree τ Q (f a) (f' a)) : Agree τ Q (r >>= f) (r' >>= f') := by
  cases r with
  | ok a =>
    obtain ⟨rfl, ha⟩ := h
    exact hf a ha
  | error e =>
    rcases h with hexcused | ⟨e', rfl, hmatched⟩
    · exact .inl hexcused
    · exact .inr ⟨e', rfl, hmatched⟩

theorem ok {a : α} (ha : P a) : Agree τ P (.ok a) (.ok a) := ⟨rfl, ha⟩

theorem error {f : Fault} (hf : τ.matched f f) : Agree τ P (.error f) (.error f) :=
  .inr ⟨f, rfl, hf⟩

end Agree

/-- The same faults on both sides, all of which have a property. -/
def Tolerance.exact (allowed : Fault → Prop) : Tolerance :=
  ⟨fun _ => False, fun f f' => f' = f ∧ allowed f⟩

/-- The same faults on both sides, but for those that are excused. -/
def Tolerance.upTo (excused : Fault → Prop) : Tolerance := ⟨excused, fun f f' => f' = f⟩

namespace Agree

variable {α : Type} {P : α → Prop} {r r' : Result α}

theorem eq_of_exact {allowed : Fault → Prop} (h : Agree (.exact allowed) P r r') : r' = r := by
  cases r with
  | ok a => exact h.1
  | error f =>
    obtain ⟨_, rfl, rfl, -⟩ := h.resolve_left id
    rfl

theorem allowed_of_exact {allowed : Fault → Prop} (h : Agree (.exact allowed) P r r') {f : Fault}
    (hr : r = .error f) : allowed f := by
  subst hr
  obtain ⟨_, -, -, hallowed⟩ := h.resolve_left id
  exact hallowed

theorem eq_of_upTo {excused : Fault → Prop} (h : Agree (.upTo excused) P r r')
    (hr : ∀ f, r = .error f → ¬ excused f) : r' = r := by
  cases r with
  | ok a => exact h.1
  | error f =>
    obtain ⟨_, rfl, rfl⟩ := h.resolve_left (hr f rfl)
    rfl

end Agree

/-- Running out at `n` in the first evaluation where the second one runs out at `n'`: the fault is
excused and the second one lasts at least as long, or both run out together. -/
def Tolerance.Cut (τ : Tolerance) (n n' : Nat) (f f' : Fault) : Prop :=
  (n ≤ n' ∧ τ.excused f) ∨ (n = n' ∧ τ.matched f f')

namespace Tolerance.Cut

variable {τ : Tolerance} {n n' : Nat} {f f' : Fault}

theorem zero {α : Type} {P : α → Prop} {r' : Result α} (h : τ.Cut 0 n' f f')
    (hr' : n' = 0 → r' = .error f') : Agree τ P (.error f) r' := by
  rcases h with ⟨-, hexcused⟩ | ⟨hn, hmatched⟩
  · exact .inl hexcused
  · exact .inr ⟨f', hr' hn.symm, hmatched⟩

theorem succ (h : τ.Cut (n + 1) n' f f') : ∃ k, n' = k + 1 ∧ τ.Cut n k f f' := by
  rcases h with ⟨hle, hexcused⟩ | ⟨rfl, hmatched⟩
  · obtain ⟨k, rfl⟩ : ∃ k, n' = k + 1 := ⟨n' - 1, by omega⟩
    exact ⟨k, rfl, .inl ⟨Nat.le_of_succ_le_succ hle, hexcused⟩⟩
  · exact ⟨n, rfl, .inr ⟨rfl, hmatched⟩⟩

end Tolerance.Cut

namespace Machine

/-! ## Machines -/

/-- Two machines are similar in a scope: they share its primitives, whose bodies stay in it, and their
arithmetic, unless an overflow of the first one is excused. Faults other than those of limits are matched
by themselves. Only if the fixpoint operation is in the scope, the caps on its iteration matter. -/
structure Similar (τ : Tolerance) (S : PrimId → Prop) (m m' : Machine) : Prop where
  fits : ∀ n, m'.fits n = m.fits n ∨ (m.fits n = false ∧ τ.excused .overflow)
  get : ∀ id, S id → m'.table.get? id = m.table.get? id
  callees : ∀ id, S id → ∀ j ∈ m.table.callees id, S j
  plain : ∀ f : Fault, f.nonTermination = false → τ.matched f f
  cap : ∀ id, S id → m.table.builtin? id = some .fix →
    τ.Cut m.limits.fixCap m'.limits.fixCap (.fixpointDiverged m.limits.fixCap)
      (.fixpointDiverged m'.limits.fixCap)

/-- Two ways to call functions agree on functions and arguments of a scope. -/
def AgreeCaller (τ : Tolerance) (S : PrimId → Prop) (call call' : Caller) : Prop :=
  ∀ f args, (∀ id ∈ f.primitives, S id) → Value.AllWithin S args →
    Agree τ (Value.Within S) (call f args) (call' f args)

variable {τ : Tolerance} {S : PrimId → Prop} {m m' : Machine} {call call' : Caller}

/-! ## Operands -/

section operands

variable (hplain : ∀ f : Fault, f.nonTermination = false → τ.matched f f)
include hplain

theorem toInt_agree (v : Value) : Agree τ (fun _ => True) v.toInt v.toInt := by
  cases v with
  | int n => exact .ok trivial
  | _ => exact .error (hplain _ rfl)

theorem toBool_agree (v : Value) : Agree τ (fun _ => True) v.toBool v.toBool := by
  cases v with
  | bool b => exact .ok trivial
  | _ => exact .error (hplain _ rfl)

theorem toInts_agree (v : Value) : Agree τ (fun _ => True) v.toInts v.toInts := by
  cases v with
  | list xs => exact .ok trivial
  | _ => exact .error (hplain _ rfl)

theorem toFn_agree {v : Value} (hv : v.Within S) :
    Agree τ (fun f => ∀ id ∈ f.primitives, S id) v.toFn v.toFn := by
  cases v with
  | func f => exact .ok hv
  | _ => exact .error (hplain _ rfl)

theorem argument_agree {args : List Value} (hargs : Value.AllWithin S args) (i : Nat) :
    Agree τ (Value.Within S) (argument args i) (argument args i) := by
  rw [argument]
  cases hget : args[i]? with
  | none => exact .error (hplain _ rfl)
  | some v => exact .ok (hargs v (List.mem_of_getElem? hget))

theorem popArg_agree {args : List Value} (hargs : Value.AllWithin S args) :
    Agree τ (fun r => r.1.Within S ∧ Value.AllWithin S r.2) (popArg args) (popArg args) := by
  rw [popArg]
  cases hlast : args.getLast? with
  | none => exact .error (hplain _ rfl)
  | some v =>
    exact .ok ⟨hargs v (List.mem_of_getLast? hlast), fun w hw => hargs w (List.mem_of_mem_dropLast hw)⟩

theorem fitting_agree {n : Int}
    (hfits : m'.fits n = m.fits n ∨ (m.fits n = false ∧ τ.excused .overflow)) {v : Value}
    (hv : v.Within S) :
    Agree τ (Value.Within S) (if m.fits n then .ok v else .error .overflow)
      (if m'.fits n then .ok v else .error .overflow) := by
  rcases hfits with hsame | ⟨hover, hexcused⟩
  · rw [hsame]
    split
    · exact .ok hv
    · exact .error (hplain _ rfl)
  · rw [if_neg (by simp [hover])]
    exact .inl hexcused

end operands

/-! ## Builtin operations -/

section loops

variable (hplain : ∀ f : Fault, f.nonTermination = false → τ.matched f f)
  (hcall : AgreeCaller τ S call call') {f : Fn} (hf : ∀ id ∈ f.primitives, S id)
include hplain hcall hf

theorem iterate_agree {n n' : Nat}
    (hcut : τ.Cut n n' (.fixpointDiverged m.limits.fixCap) (.fixpointDiverged m'.limits.fixCap))
    (x : Int) : Agree τ (Value.Within S) (m.iterate call f n x) (m'.iterate call' f n' x) := by
  induction n generalizing n' x with
  | zero =>
    refine hcut.zero fun hn' => ?_
    rw [hn', iterate]
  | succ n ih =>
    obtain ⟨k, rfl, hrest⟩ := hcut.succ
    have hstep := hcall f [.int x] hf (by simp)
    rw [iterate, iterate]
    refine hstep.bind fun v _ => (toInt_agree hplain v).bind fun y _ => ?_
    split
    · exact .ok (Value.within_int x)
    · exact ih hrest y

theorem mapInts_agree (xs : List Int) :
    Agree τ (fun _ => True) (mapInts call f xs) (mapInts call' f xs) := by
  induction xs with
  | nil => exact .ok trivial
  | cons x xs ih =>
    have hhead := hcall f [.int x] hf (by simp)
    rw [mapInts, mapInts]
    refine hhead.bind fun v _ => (toInt_agree hplain v).bind fun y _ => ?_
    exact ih.bind fun ys _ => .ok trivial

theorem filterInts_agree (xs : List Int) :
    Agree τ (fun _ => True) (filterInts call f xs) (filterInts call' f xs) := by
  induction xs with
  | nil => exact .ok trivial
  | cons x xs ih =>
    have hhead := hcall f [.int x] hf (by simp)
    rw [filterInts, filterInts]
    refine hhead.bind fun v _ => (toBool_agree hplain v).bind fun keep _ => ?_
    exact ih.bind fun ys _ => .ok trivial

theorem foldInts_agree (acc : Int) (xs : List Int) :
    Agree τ (fun _ => True) (foldInts call f acc xs) (foldInts call' f acc xs) := by
  induction xs generalizing acc with
  | nil => exact .ok trivial
  | cons x xs ih =>
    have hhead := hcall f [.int acc, .int x] hf (by simp)
    rw [foldInts, foldInts]
    exact hhead.bind fun v _ => (toInt_agree hplain v).bind fun next _ => ih next

end loops

theorem builtin_agree (hm : Similar τ S m m') (hcall : AgreeCaller τ S call call') {op : Builtin}
    (hop : ∃ id, S id ∧ m.table.builtin? id = some op) {args : List Value}
    (hargs : Value.AllWithin S args) :
    Agree τ (Value.Within S) (m.builtin call op args) (m'.builtin call' op args) := by
  have harg := argument_agree hm.plain hargs
  have hint : ∀ i, Agree τ (fun _ => True) (intArg args i) (intArg args i) :=
    fun i => (harg i).bind fun v _ => toInt_agree hm.plain v
  have hbool : ∀ {args'} (_ : Value.AllWithin S args') i,
      Agree τ (fun _ => True) (boolArg args' i) (boolArg args' i) :=
    fun h i => (argument_agree hm.plain h i).bind fun v _ => toBool_agree hm.plain v
  have hints : ∀ i, Agree τ (fun _ => True) (intsArg args i) (intsArg args i) :=
    fun i => (harg i).bind fun v _ => toInts_agree hm.plain v
  have hfn : ∀ i, Agree τ (fun f => ∀ id ∈ f.primitives, S id) (fnArg args i) (fnArg args i) :=
    fun i => (harg i).bind fun v hv => toFn_agree hm.plain hv
  have hchecked : ∀ n, Agree τ (Value.Within S) (m.checked n) (m'.checked n) :=
    fun n => fitting_agree hm.plain (hm.fits n) (Value.within_int n)
  cases op with
  | add | sub | mul => exact (hint 0).bind fun x _ => (hint 1).bind fun y _ => hchecked _
  | div =>
    refine (hint 0).bind fun x _ => (hint 1).bind fun y _ => ?_
    split
    · exact .error (hm.plain _ rfl)
    · exact hchecked _
  | mod =>
    refine (hint 0).bind fun x _ => (hint 1).bind fun y _ => ?_
    split
    · exact .error (hm.plain _ rfl)
    · exact fitting_agree hm.plain (hm.fits _) (Value.within_int _)
  | neg => exact (hint 0).bind fun x _ => hchecked _
  | eq | lt | gt =>
    exact (hint 0).bind fun x _ => (hint 1).bind fun y _ => .ok (Value.within_bool _)
  | and =>
    refine (hbool hargs 0).bind fun p _ => ?_
    cases p with
    | true => exact (hbool hargs 1).bind fun q _ => .ok (Value.within_bool q)
    | false => exact .ok (Value.within_bool false)
  | or =>
    refine (hbool hargs 0).bind fun p _ => ?_
    cases p with
    | true => exact .ok (Value.within_bool true)
    | false => exact (hbool hargs 1).bind fun q _ => .ok (Value.within_bool q)
  | not => exact (hbool hargs 0).bind fun p _ => .ok (Value.within_bool _)
  | cond =>
    refine (popArg_agree hm.plain hargs).bind fun ⟨b, rest⟩ ⟨hb, hrest⟩ => ?_
    refine (popArg_agree hm.plain hrest).bind fun ⟨a, rest⟩ ⟨ha, hrest⟩ => ?_
    refine (hbool hrest 0).bind fun p _ => .ok ?_
    cases p with
    | true => exact ha
    | false => exact hb
  | identity => exact (hint 0).bind fun x _ => .ok (Value.within_int x)
  | compose =>
    refine (hfn 0).bind fun outer ho => (hfn 1).bind fun inner hi => .ok ?_
    rw [Value.within_func]
    intro id hid
    rcases List.mem_append.mp hid with hid | hid
    · exact ho id hid
    · exact hi id hid
  | fix =>
    obtain ⟨id, hid, hfix⟩ := hop
    refine (hfn 0).bind fun f hf => (hint 1).bind fun x _ => ?_
    exact iterate_agree hm.plain hcall hf (hm.cap id hid hfix) x
  | map =>
    refine (hfn 0).bind fun f hf => (hints 1).bind fun xs _ => ?_
    exact (mapInts_agree hm.plain hcall hf xs).bind fun ys _ => .ok (Value.within_list ys)
  | filter =>
    refine (hfn 0).bind fun f hf => (hints 1).bind fun xs _ => ?_
    exact (filterInts_agree hm.plain hcall hf xs).bind fun ys _ => .ok (Value.within_list ys)
  | fold =>
    refine (hfn 0).bind fun f hf => (hint 1).bind fun x _ => (hints 2).bind fun xs _ => ?_
    exact (foldInts_agree hm.plain hcall hf x xs).bind fun y _ => .ok (Value.within_int y)
  | head | tail =>
    refine (hints 0).bind fun xs _ => ?_
    cases xs with
    | nil => exact .error (hm.plain _ rfl)
    | cons x xs => exact .ok (by simp)
  | cons => exact (hints 1).bind fun xs _ => (hint 0).bind fun x _ => .ok (Value.within_list _)
  | length => exact (hints 0).bind fun xs _ => .ok (Value.within_int _)

/-! ## Terms and calls -/

/-- Two ways to apply primitives agree on a scope. -/
def AgreeApply (τ : Tolerance) (S : PrimId → Prop)
    (apply apply' : PrimId → List Value → Result Value) : Prop :=
  ∀ id args, S id → Value.AllWithin S args →
    Agree τ (Value.Within S) (apply id args) (apply' id args)

theorem AgreeCaller.apply (hcall : AgreeCaller τ S call call') :
    AgreeApply τ S (fun id => call (.primitive id)) (fun id => call' (.primitive id)) := by
  intro id args hid hargs
  exact hcall (.primitive id) args (by simpa [Fn.primitives] using hid) hargs

theorem Similar.builtin?_eq (hm : Similar τ S m m') {id : PrimId} (hid : S id) :
    m'.table.builtin? id = m.table.builtin? id := by
  rw [Table.builtin?, Table.builtin?, hm.get id hid]

theorem Similar.conditional_eq (hm : Similar τ S m m') {id : PrimId} (hid : S id) :
    m'.table.conditional id = m.table.conditional id := by
  rw [Table.conditional, Table.conditional, hm.builtin?_eq hid]

section terms

variable {apply apply' : PrimId → List Value → Result Value} {inputs : List Value}

theorem evalsWith_agree {es : List Term}
    (heval : ∀ e ∈ es,
      Agree τ (Value.Within S) (m.evalWith apply inputs e) (m'.evalWith apply' inputs e)) :
    Agree τ (Value.AllWithin S) (m.evalsWith apply inputs es) (m'.evalsWith apply' inputs es) := by
  induction es with
  | nil =>
    rw [evalsWith, evalsWith]
    exact .ok Value.allWithin_nil
  | cons e es ih =>
    obtain ⟨hhead, htail⟩ := List.forall_mem_cons.mp heval
    rw [evalsWith, evalsWith]
    refine hhead.bind fun v hv => (ih htail).bind fun vs hvs => .ok ?_
    exact Value.allWithin_cons.mpr ⟨hv, hvs⟩

theorem evalWith_agree (hm : Similar τ S m m') (happly : AgreeApply τ S apply apply')
    (hinputs : Value.AllWithin S inputs) (e : Term) : (∀ id ∈ e.primitives, S id) →
      Agree τ (Value.Within S) (m.evalWith apply inputs e) (m'.evalWith apply' inputs e) := by
  induction e using Term.inductionOn with
  | lit v =>
    intro hscope
    rw [evalWith, evalWith]
    refine .ok ?_
    cases v with
    | func f => exact hscope
    | _ => simp
  | var i =>
    intro _
    rw [evalWith, evalWith]
    cases hi : inputs[i]? with
    | none => exact .error (hm.plain _ rfl)
    | some v => exact .ok (hinputs v (List.mem_of_getElem? hi))
  | apply id args ih =>
    intro hscope
    rw [Term.primitives, List.forall_mem_cons] at hscope
    obtain ⟨hid, hargs⟩ := hscope
    have heval : ∀ a ∈ args,
        Agree τ (Value.Within S) (m.evalWith apply inputs a) (m'.evalWith apply' inputs a) :=
      fun a ha => ih a ha fun j hj => hargs j (Term.mem_primitivesList.mpr ⟨a, ha, hj⟩)
    rw [evalWith.eq_def, evalWith.eq_def m']
    simp only [hm.conditional_eq hid]
    split
    · split
      · rename_i c a b
        refine (heval c (by simp)).bind fun v _ => (toBool_agree hm.plain v).bind fun p _ => ?_
        cases p with
        | true => exact heval a (by simp)
        | false => exact heval b (by simp)
      · exact .error (hm.plain _ rfl)
    · exact (evalsWith_agree heval).bind fun vs hvs => happly id vs hid hvs

end terms

theorem applyWith_agree (hm : Similar τ S m m') (hcall : AgreeCaller τ S call call') :
    AgreeApply τ S (m.applyWith call) (m'.applyWith call') := by
  intro id args hid hargs
  rw [applyWith, applyWith, hm.get id hid]
  cases hget : m.table.get? id with
  | none => exact .error (hm.plain _ rfl)
  | some p =>
    simp only
    split
    · cases hrule : p.rule with
      | builtin op =>
        have hop := Table.builtin?_eq_some.mpr ⟨p, hget, hrule⟩
        exact builtin_agree hm hcall ⟨id, hid, hop⟩ hargs
      | learned body =>
        refine evalWith_agree hm hcall.apply hargs body fun j hj => ?_
        exact hm.callees id hid j (Table.mem_callees.mpr ⟨p, body, hget, hrule, hj⟩)
    · exact .error (hm.plain _ rfl)

/-- **Calls agree**, where the first machine runs out of levels as the tolerance allows. -/
theorem callAt_agree (hm : Similar τ S m m') {n n' : Nat}
    (hcut : τ.Cut n n' (.callDepthExceeded m.limits.callDepth)
      (.callDepthExceeded m'.limits.callDepth)) :
    AgreeCaller τ S (m.callAt n) (m'.callAt n') := by
  -- on the levels of the first machine; the tolerance says which levels the second one has then
  induction n generalizing n' with
  | zero =>
    intro f args _ _
    refine hcut.zero fun hn' => ?_
    rw [hn', callAt]
  | succ n ih =>
    obtain ⟨k, rfl, hrest⟩ := hcut.succ
    intro f args hf hargs
    cases f with
    | primitive id =>
      rw [callAt, callAt]
      exact applyWith_agree hm (ih hrest) id args (hf id (by simp [Fn.primitives])) hargs
    | compose outer inner =>
      rw [Fn.primitives, List.forall_mem_append] at hf
      rw [callAt, callAt]
      refine (ih hrest inner args hf.2 hargs).bind fun mid hmid => ?_
      exact ih hrest outer [mid] hf.1 (by simpa using hmid)

theorem evalAt_agree (hm : Similar τ S m m') {n n' : Nat}
    (hcut : τ.Cut n n' (.callDepthExceeded m.limits.callDepth)
      (.callDepthExceeded m'.limits.callDepth))
    {inputs : List Value} (hinputs : Value.AllWithin S inputs) {e : Term}
    (he : ∀ id ∈ e.primitives, S id) :
    Agree τ (Value.Within S) (m.evalAt n inputs e) (m'.evalAt n' inputs e) :=
  evalWith_agree hm (callAt_agree hm hcut).apply hinputs e he

theorem similar_self (m : Machine) (excused : Fault → Prop) :
    Similar (.upTo excused) (fun _ => True) m m where
  fits _ := .inl rfl
  get _ _ := rfl
  callees _ _ _ _ := trivial
  plain _ _ := rfl
  cap _ _ _ := .inr ⟨rfl, rfl⟩

theorem evalAt_mono {n n' : Nat} (h : n ≤ n') {inputs : List Value} {e : Term}
    (hsuffice : m.evalAt n inputs e ≠ .error (.callDepthExceeded m.limits.callDepth)) :
    m.evalAt n' inputs e = m.evalAt n inputs e := by
  have hagree : Agree _ _ (m.evalAt n inputs e) (m.evalAt n' inputs e) :=
    evalAt_agree (similar_self m (· = .callDepthExceeded m.limits.callDepth)) (.inl ⟨h, rfl⟩)
      (Value.allWithin_true inputs) fun _ _ => trivial
  refine hagree.eq_of_upTo ?_
  rintro f hf rfl
  exact hsuffice hf

end Machine

end Exemplar
