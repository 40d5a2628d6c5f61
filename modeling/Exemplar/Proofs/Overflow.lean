import Exemplar.Proofs.Agreement

/-!
# Arithmetic of words

**Unless it overflows, an evaluation with sixty-four bits ends like one without a bound on integers, and the
integers of its value fit into a word** (`eval_unless_overflow`).

The first part compares two machines that differ in their arithmetic alone (`similar_unbounded`): the
first one excuses its overflows, and nothing else is different. The second part is an invariant. Given
arguments and literals that fit, every builtin operation results in integers that fit (`builtin_gives`),
and so do applications, the evaluation of a term (`evalWith_gives`) and calls (`callCounted_gives`).

The length of a list is the one integer that no operation checks. A list that is longer than a word can
count exists in no memory, and so the second part is about evaluations that meet no such list: those that
do not overflow either where such a list counts as an overflow (`evalCounted`).
-/

namespace Exemplar

/-! ## What fits -/

theorem fitsWord_iff {n : Int} :
    fitsWord n = true ↔ -9223372036854775808 ≤ n ∧ n ≤ 9223372036854775807 := by
  simp [fitsWord]

/-- The integers of a value fit into words, and so does their number. -/
def Value.fits (v : Value) : Bool := v.integers.all fitsWord && fitsWord v.integers.length

/-- The literals of a term fit. -/
def Term.fits (e : Term) : Bool :=
  e.subterms.all fun s => match s.2 with
    | .lit v => v.fits
    | _ => true

/-- The literals of all bodies fit. -/
def Table.fits (t : Table) : Bool := t.toList.all fun p => p.body?.all Term.fits

namespace Value

theorem fits_iff {v : Value} :
    v.fits = true ↔ (∀ n ∈ v.integers, fitsWord n = true) ∧ fitsWord v.integers.length = true := by
  rw [fits, Bool.and_eq_true, List.all_eq_true]

@[simp] theorem fits_int (n : Int) : (Value.int n).fits = fitsWord n := by
  have hone : fitsWord 1 = true := rfl
  simp [fits, integers, hone]

theorem fits_list {xs : List Int} (h : (Value.list xs).fits = true) : ∀ x ∈ xs, fitsWord x = true :=
  (fits_iff.mp h).1

end Value

namespace Term

theorem fits_lit {v : Value} (h : (Term.lit v).fits = true) : v.fits = true := by
  simpa [fits, subterms] using h

theorem fits_arg {id : PrimId} {args : List Term} (h : (Term.apply id args).fits = true) {a : Term}
    (ha : a ∈ args) : a.fits = true := by
  rw [fits, List.all_eq_true] at h ⊢
  rintro ⟨path, s⟩ hs
  obtain ⟨path', hs'⟩ := mem_subterms_of_arg id ha hs
  exact h (path', s) hs'

end Term

theorem Table.fits_body {t : Table} (ht : t.fits = true) {id : PrimId} {p : Primitive} {body : Term}
    (hget : t.get? id = some p) (hrule : p.rule = .learned body) : body.fits = true := by
  have hp := List.all_eq_true.mp ht p (mem_of_get? hget)
  simpa [Primitive.body?, hrule] using hp

/-! ## Values of results -/

/-- The value of a result, if there is one, has a property. -/
def Gives {α : Type} (P : α → Prop) (r : Result α) : Prop := ∀ a, r = .ok a → P a

namespace Gives

variable {α β : Type} {P : α → Prop} {Q : β → Prop} {r : Result α}

theorem ok {a : α} (h : P a) : Gives P (.ok a) := by
  rintro _ ⟨⟩
  exact h

theorem error (f : Fault) : Gives P (.error f) := nofun

theorem bind (h : Gives P r) {f : α → Result β} (hf : ∀ a, P a → Gives Q (f a)) :
    Gives Q (r >>= f) := by
  intro b hb
  obtain ⟨a, ha, hb⟩ := bind_eq_ok.mp hb
  exact hf a (h a ha) b hb

theorem imp (h : Gives P r) {P' : α → Prop} (hP : ∀ a, P a → P' a) : Gives P' r :=
  fun a ha => hP a (h a ha)

theorem true (r : Result α) : Gives (fun _ => True) r := fun _ _ => trivial

end Gives

namespace Value

theorem toInt_gives {v : Value} (h : v.fits = true) : Gives (fitsWord · = true) v.toInt := by
  cases v with
  | int n => exact .ok (fits_int n ▸ h)
  | _ => exact .error _

theorem toInts_gives {v : Value} (h : v.fits = true) :
    Gives (fun xs => (Value.list xs).fits = true) v.toInts := by
  cases v with
  | list xs => exact .ok h
  | _ => exact .error _

end Value

namespace Machine

variable {m : Machine} {call : Caller}

/-! ## Without a bound -/

/-- The machine whose arithmetic never overflows. -/
def unbounded (m : Machine) : Machine := { m with fits := fun _ => true }

theorem similar_unbounded (m : Machine) :
    Similar (.upTo (· = .overflow)) (fun _ => True) m m.unbounded where
  fits n := by
    cases hn : m.fits n with
    | true => exact .inl rfl
    | false => exact .inr ⟨rfl, rfl⟩
  get _ _ := rfl
  callees _ _ _ _ := trivial
  plain _ _ := rfl
  cap _ _ _ := .inr ⟨rfl, rfl⟩

theorem eval_unbounded {e : Term} {inputs : List Value} (h : m.eval e inputs ≠ .error .overflow) :
    m.unbounded.eval e inputs = m.eval e inputs := by
  have hagree : Agree _ _ (m.eval e inputs) (m.unbounded.eval e inputs) :=
    evalAt_agree (similar_unbounded m) (.inr ⟨rfl, rfl⟩) (Value.allWithin_true inputs)
      fun _ _ => trivial
  refine hagree.eq_of_upTo ?_
  rintro f hf rfl
  exact h hf

/-! ## Lists that can be counted -/

/-- A value whose integers a word can count. -/
def counted (v : Value) : Result Value :=
  if fitsWord v.integers.length then .ok v else .error .overflow

/-- Calls in which a list that a word cannot count is an overflow. -/
def callCounted (m : Machine) : Nat → Caller
  | 0, _, _ => .error (.callDepthExceeded m.limits.callDepth)
  | n + 1, .primitive id, args => m.applyWith (m.callCounted n) id args >>= counted
  | n + 1, .compose outer inner, args => do
    let mid ← m.callCounted n inner args
    m.callCounted n outer [mid]

/-- The value of a program, where a list that a word cannot count is an overflow. -/
def evalCounted (m : Machine) (e : Term) (inputs : List Value) : Result Value :=
  m.evalWith (fun id => m.callCounted (m.limits.callDepth + 1) (.primitive id)) inputs e

theorem callCounted_agree (m : Machine) (n : Nat) :
    AgreeCaller (.upTo (· = .overflow)) (fun _ => True) (m.callCounted n) (m.callAt n) := by
  induction n with
  | zero => exact fun f args _ _ => .error rfl
  | succ n ih =>
    intro f args _ hargs
    cases f with
    | primitive id =>
      have happly := applyWith_agree (similar_self m _) ih id args trivial hargs
      rw [callCounted, callAt]
      cases hr : m.applyWith (m.callCounted n) id args with
      | error f =>
        rw [hr] at happly
        exact happly
      | ok v =>
        rw [hr] at happly
        show Agree _ _ (counted v) _
        rw [counted]
        split
        · exact happly
        · exact .inl rfl
    | compose outer inner =>
      rw [callCounted, callAt]
      refine (ih inner args (fun _ _ => trivial) hargs).bind fun mid hmid => ?_
      exact ih outer [mid] (fun _ _ => trivial) (by simpa using hmid)

theorem evalCounted_eq {e : Term} {inputs : List Value}
    (h : m.evalCounted e inputs ≠ .error .overflow) : m.eval e inputs = m.evalCounted e inputs := by
  have hagree : Agree _ _ (m.evalCounted e inputs) (m.eval e inputs) :=
    evalWith_agree (similar_self m _) (callCounted_agree m _).apply (Value.allWithin_true inputs) e
      fun _ _ => trivial
  refine hagree.eq_of_upTo ?_
  rintro f hf rfl
  exact h hf

/-! ## Builtin operations -/

/-- Calls have values that fit, on arguments that do. -/
def GivesCaller (call : Caller) : Prop :=
  ∀ f args, (∀ a ∈ args, a.fits = true) → Gives (Value.fits · = true) (call f args)

section loops

variable (hcall : GivesCaller call) (f : Fn)
include hcall

theorem call_int_gives {x : Int} (hx : fitsWord x = true) :
    Gives (Value.fits · = true) (call f [.int x]) := hcall f [.int x] (by simpa using hx)

theorem iterate_gives (n : Nat) {x : Int} (hx : fitsWord x = true) :
    Gives (Value.fits · = true) (m.iterate call f n x) := by
  induction n generalizing x with
  | zero => exact .error _
  | succ n ih =>
    rw [iterate]
    refine (call_int_gives hcall f hx).bind fun v hv => (Value.toInt_gives hv).bind fun y hy => ?_
    split
    · exact .ok (by simpa using hx)
    · exact ih hy

theorem mapInts_gives {xs : List Int} (hxs : ∀ x ∈ xs, fitsWord x = true) :
    Gives (fun ys => ∀ y ∈ ys, fitsWord y = true) (mapInts call f xs) := by
  induction xs with
  | nil => exact .ok (List.forall_mem_nil _)
  | cons x xs ih =>
    obtain ⟨hx, hxs⟩ := List.forall_mem_cons.mp hxs
    rw [mapInts]
    refine (call_int_gives hcall f hx).bind fun v hv => (Value.toInt_gives hv).bind fun y hy => ?_
    exact (ih hxs).bind fun ys hys => .ok (List.forall_mem_cons.mpr ⟨hy, hys⟩)

omit hcall in
theorem filterInts_gives {xs : List Int} (hxs : ∀ x ∈ xs, fitsWord x = true) :
    Gives (fun ys => ∀ y ∈ ys, fitsWord y = true) (filterInts call f xs) := by
  induction xs with
  | nil => exact .ok (List.forall_mem_nil _)
  | cons x xs ih =>
    obtain ⟨hx, hxs⟩ := List.forall_mem_cons.mp hxs
    rw [filterInts]
    refine (Gives.true _).bind fun v _ => (Gives.true _).bind fun keep _ => ?_
    refine (ih hxs).bind fun ys hys => .ok ?_
    cases keep with
    | true => exact List.forall_mem_cons.mpr ⟨hx, hys⟩
    | false => exact hys

theorem foldInts_gives {xs : List Int} (hxs : ∀ x ∈ xs, fitsWord x = true) {acc : Int}
    (hacc : fitsWord acc = true) : Gives (fitsWord · = true) (foldInts call f acc xs) := by
  induction xs generalizing acc with
  | nil => exact .ok hacc
  | cons x xs ih =>
    obtain ⟨hx, hxs⟩ := List.forall_mem_cons.mp hxs
    rw [foldInts]
    refine (hcall f [.int acc, .int x] (by simp [hacc, hx])).bind fun v hv => ?_
    exact (Value.toInt_gives hv).bind fun next hnext => ih hxs hnext

end loops

theorem fitsWord_emod {x y : Int} (hy : fitsWord y = true) (hzero : y ≠ 0) :
    fitsWord (x.emod y) = true := by
  have hlower : 0 ≤ x.emod y := Int.emod_nonneg x hzero
  have hupper : x.emod y < y.natAbs := Int.emod_lt x hzero
  rw [fitsWord_iff] at hy ⊢
  omega

section arguments

variable {args : List Value} (hargs : ∀ a ∈ args, a.fits = true)
include hargs

theorem intArg_gives (i : Nat) : Gives (fitsWord · = true) (intArg args i) :=
  Gives.bind (fun _ h => hargs _ (mem_of_argument h)) fun _ hv => Value.toInt_gives hv

theorem intsArg_gives (i : Nat) : Gives (fun xs => (Value.list xs).fits = true) (intsArg args i) :=
  Gives.bind (fun _ h => hargs _ (mem_of_argument h)) fun _ hv => Value.toInts_gives hv

theorem popArg_gives :
    Gives (fun r => r.1.fits = true ∧ ∀ a ∈ r.2, a.fits = true) (popArg args) := by
  rintro ⟨v, rest⟩ h
  obtain rfl := popArg_eq_ok.mp h
  exact ⟨hargs v (by simp), fun a ha => hargs a (List.mem_append_left _ ha)⟩

end arguments

/-- The integers of a value fit, however many they are. -/
def HasWords (v : Value) : Prop := ∀ n ∈ v.integers, fitsWord n = true

/-- On arguments that fit, a builtin operation results in integers that fit. Only the list that it
lengthens may have become too long. -/
theorem builtin_gives (hfits : ∀ n, m.fits n = true → fitsWord n = true) (hcall : GivesCaller call)
    (op : Builtin) {args : List Value} (hargs : ∀ a ∈ args, a.fits = true) :
    Gives HasWords (m.builtin call op args) := by
  have hint : ∀ {n : Int}, fitsWord n = true → HasWords (.int n) := fun h => by
    simpa [HasWords, Value.integers] using h
  have hbool : ∀ b, HasWords (.bool b) := fun b => by simp [HasWords, Value.integers]
  have hchecked : ∀ n, Gives HasWords (m.checked n) := by
    intro n
    rw [checked]
    split
    · rename_i hn
      exact .ok (hint (hfits n hn))
    · exact .error _
  cases op with
  | add | sub | mul =>
    exact (Gives.true _).bind fun x _ => (Gives.true _).bind fun y _ => hchecked _
  | div =>
    refine (Gives.true _).bind fun x _ => (Gives.true _).bind fun y _ => ?_
    split
    · exact .error _
    · exact hchecked _
  | mod =>
    refine (Gives.true _).bind fun x _ => (intArg_gives hargs 1).bind fun y hy => ?_
    split
    · exact .error _
    · rename_i hzero
      split
      · exact .ok (hint (fitsWord_emod hy hzero))
      · exact .error _
  | neg => exact (Gives.true _).bind fun x _ => hchecked _
  | eq | lt | gt =>
    exact (Gives.true _).bind fun x _ => (Gives.true _).bind fun y _ => .ok (hbool _)
  | and =>
    refine (Gives.true _).bind fun p _ => ?_
    cases p with
    | true => exact (Gives.true _).bind fun q _ => .ok (hbool q)
    | false => exact .ok (hbool false)
  | or =>
    refine (Gives.true _).bind fun p _ => ?_
    cases p with
    | true => exact .ok (hbool true)
    | false => exact (Gives.true _).bind fun q _ => .ok (hbool q)
  | not => exact (Gives.true _).bind fun p _ => .ok (hbool _)
  | cond =>
    refine (popArg_gives hargs).bind fun ⟨b, rest⟩ ⟨hb, hrest⟩ => ?_
    refine (popArg_gives hrest).bind fun ⟨a, rest⟩ ⟨ha, _⟩ => ?_
    refine (Gives.true _).bind fun p _ => .ok ?_
    cases p with
    | true => exact (Value.fits_iff.mp ha).1
    | false => exact (Value.fits_iff.mp hb).1
  | identity => exact (intArg_gives hargs 0).bind fun x hx => .ok (hint hx)
  | compose => exact (Gives.true _).bind fun _ _ => (Gives.true _).bind fun _ _ => .ok nofun
  | fix =>
    refine (Gives.true _).bind fun f _ => (intArg_gives hargs 1).bind fun x hx => ?_
    exact (iterate_gives hcall f _ hx).imp fun v hv => (Value.fits_iff.mp hv).1
  | map =>
    refine (Gives.true _).bind fun f _ => (intsArg_gives hargs 1).bind fun xs hxs => ?_
    exact (mapInts_gives hcall f (Value.fits_list hxs)).bind fun ys hys => .ok hys
  | filter =>
    refine (Gives.true _).bind fun f _ => (intsArg_gives hargs 1).bind fun xs hxs => ?_
    exact (filterInts_gives f (Value.fits_list hxs)).bind fun ys hys => .ok hys
  | fold =>
    refine (Gives.true _).bind fun f _ => (intArg_gives hargs 1).bind fun x hx =>
      (intsArg_gives hargs 2).bind fun xs hxs => ?_
    exact (foldInts_gives hcall f (Value.fits_list hxs) hx).bind fun y hy => .ok (hint hy)
  | head =>
    refine (intsArg_gives hargs 0).bind fun xs hxs => ?_
    cases xs with
    | nil => exact .error _
    | cons x xs => exact .ok (hint (Value.fits_list hxs x List.mem_cons_self))
  | tail =>
    refine (intsArg_gives hargs 0).bind fun xs hxs => ?_
    cases xs with
    | nil => exact .error _
    | cons x xs => exact .ok fun y hy => Value.fits_list hxs y (List.mem_cons_of_mem x hy)
  | cons =>
    refine (intsArg_gives hargs 1).bind fun xs hxs => (intArg_gives hargs 0).bind fun x hx => .ok ?_
    exact List.forall_mem_cons.mpr ⟨hx, Value.fits_list hxs⟩
  | length =>
    refine (intsArg_gives hargs 0).bind fun xs hxs => .ok (hint ?_)
    exact (Value.fits_iff.mp hxs).2

/-! ## Terms and calls -/

theorem counted_gives {r : Result Value} (h : Gives HasWords r) :
    Gives (Value.fits · = true) (r >>= counted) := by
  refine h.bind fun v hv => ?_
  rw [counted]
  split
  · rename_i hlength
    exact .ok (Value.fits_iff.mpr ⟨hv, hlength⟩)
  · exact .error _

section terms

variable {apply : PrimId → List Value → Result Value} {inputs : List Value}

theorem evalsWith_gives {es : List Term}
    (heval : ∀ e ∈ es, Gives (Value.fits · = true) (m.evalWith apply inputs e)) :
    Gives (fun vs => ∀ v ∈ vs, v.fits = true) (m.evalsWith apply inputs es) := by
  induction es with
  | nil =>
    rw [evalsWith]
    exact .ok (List.forall_mem_nil _)
  | cons e es ih =>
    obtain ⟨hhead, htail⟩ := List.forall_mem_cons.mp heval
    rw [evalsWith]
    refine hhead.bind fun v hv => (ih htail).bind fun vs hvs => .ok ?_
    exact List.forall_mem_cons.mpr ⟨hv, hvs⟩

theorem evalWith_gives
    (happly : ∀ id args, (∀ a ∈ args, a.fits = true) → Gives (Value.fits · = true) (apply id args))
    (hinputs : ∀ v ∈ inputs, v.fits = true) (e : Term) :
    e.fits = true → Gives (Value.fits · = true) (m.evalWith apply inputs e) := by
  induction e using Term.inductionOn with
  | lit v =>
    intro he
    rw [evalWith]
    exact .ok (Term.fits_lit he)
  | var i =>
    intro _
    rw [evalWith]
    split
    · rename_i v hv
      exact .ok (hinputs v (List.mem_of_getElem? hv))
    · exact .error _
  | apply id args ih =>
    intro he
    have heval : ∀ a ∈ args, Gives (Value.fits · = true) (m.evalWith apply inputs a) :=
      fun a ha => ih a ha (Term.fits_arg he ha)
    rw [evalWith.eq_def]
    dsimp only
    split
    · split
      · rename_i c a b
        refine (Gives.true _).bind fun v _ => (Gives.true _).bind fun p _ => ?_
        cases p with
        | true => exact heval a (by simp)
        | false => exact heval b (by simp)
      · exact .error _
    · exact (evalsWith_gives heval).bind fun vs hvs => happly id vs hvs

end terms

theorem applyWith_gives (hfits : ∀ n, m.fits n = true → fitsWord n = true)
    (htable : m.table.fits = true) (hcall : GivesCaller call) (id : PrimId) {args : List Value}
    (hargs : ∀ a ∈ args, a.fits = true) : Gives HasWords (m.applyWith call id args) := by
  rw [applyWith]
  cases hget : m.table.get? id with
  | none => exact .error _
  | some p =>
    dsimp only
    split
    · cases hrule : p.rule with
      | builtin op => exact builtin_gives hfits hcall op hargs
      | learned body =>
        have hbody := Table.fits_body htable hget hrule
        have hvalue := evalWith_gives (m := m) (fun i => hcall (.primitive i)) hargs body hbody
        exact hvalue.imp fun v hv => (Value.fits_iff.mp hv).1
    · exact .error _

theorem callCounted_gives (hfits : ∀ n, m.fits n = true → fitsWord n = true)
    (htable : m.table.fits = true) (n : Nat) : GivesCaller (m.callCounted n) := by
  induction n with
  | zero => exact fun f args _ => .error _
  | succ n ih =>
    intro f args hargs
    cases f with
    | primitive id =>
      rw [callCounted]
      exact counted_gives (applyWith_gives hfits htable ih id hargs)
    | compose outer inner =>
      rw [callCounted]
      exact (ih inner args hargs).bind fun mid hmid => ih outer [mid] (by simpa using hmid)

/-- **Unless it overflows, an evaluation with sixty-four bits ends like one without a bound on integers.**
If its table, its program and its inputs hold integers of sixty-four bits, so does its value, provided
that it meets no list that is longer than a word can count. -/
theorem eval_unless_overflow {t : Table} (htable : t.fits = true) {e : Term} (he : e.fits = true)
    {inputs : List Value} (hinputs : ∀ v ∈ inputs, v.fits = true) (l : Limits) :
    let m := t.machine l
    (m.unbounded.eval e inputs ≠ m.eval e inputs → m.eval e inputs = .error .overflow) ∧
    ∀ v, m.eval e inputs = .ok v → m.unbounded.eval e inputs = .ok v ∧
      (m.evalCounted e inputs ≠ .error .overflow → ∀ n ∈ v.integers, fitsWord n = true) := by
  intro m
  have hsame : m.eval e inputs ≠ .error .overflow → m.unbounded.eval e inputs = m.eval e inputs :=
    eval_unbounded
  refine ⟨fun hne => by_contra fun hover => hne (hsame hover), fun v hv => ⟨?_, fun hcounted => ?_⟩⟩
  · rw [hsame (by simp [hv]), hv]
  · have hcalls := callCounted_gives (m := m) (fun _ h => h) htable (m.limits.callDepth + 1)
    have hvalue : Gives (Value.fits · = true) (m.evalCounted e inputs) :=
      evalWith_gives (fun id => hcalls (.primitive id)) hinputs e he
    rw [evalCounted_eq hcounted] at hv
    exact (Value.fits_iff.mp (hvalue v hv)).1

/-- A sum that passes close by both ends of a word, over a body that takes one end to the other; and a
remainder that is zero without a bound and an overflow with one. -/
theorem eval_unless_overflow_extremes :
    let t := Table.builtins.push
      (.ofBody 23 "mirror" ⟨[.int], .int⟩ (.apply 1 [.lit (.int (-1)), .var 0]) 1)
    let m := t.machine .standard
    let e : Term := .apply 18 [.lit (.func (.primitive 0)), .apply 22 [.var 0],
      .apply 16 [.lit (.func (.primitive 23)), .var 0]]
    let ends : List Value := [.list [9223372036854775807, -9223372036854775808]]
    let remainder : Term := .apply 4 [.var 0, .var 1]
    let least : List Value := [.int (-9223372036854775808), .int (-1)]
    (t.fits = true ∧ e.fits = true ∧ ∀ v ∈ ends, v.fits = true) ∧
      (m.eval e ends = .ok (.int 1) ∧ m.unbounded.eval e ends = .ok (.int 1) ∧
        m.evalCounted e ends ≠ .error .overflow ∧ ∀ n ∈ (Value.int 1).integers, fitsWord n = true) ∧
      (remainder.fits = true ∧ ∀ v ∈ least, v.fits = true) ∧
      m.unbounded.eval remainder least = .ok (.int 0) ∧
        m.eval remainder least = .error .overflow := by
  intro t m e ends remainder least
  have htable : t.fits = true := by decide +kernel
  have he : e.fits = true := by decide +kernel
  have hends : ∀ v ∈ ends, v.fits = true := by decide +kernel
  have hremainder : remainder.fits = true := by decide +kernel
  have hleast : ∀ v ∈ least, v.fits = true := by decide +kernel
  have hsum : m.eval e ends = .ok (.int 1) := by decide +kernel
  have hcounted : m.evalCounted e ends ≠ .error .overflow := by decide +kernel
  have hzero : m.unbounded.eval remainder least = .ok (.int 0) := by decide +kernel
  obtain ⟨hsum', hone⟩ := (eval_unless_overflow htable he hends .standard).2 _ hsum
  refine ⟨⟨htable, he, hends⟩, ⟨hsum, hsum', hcounted, hone hcounted⟩, ⟨hremainder, hleast⟩, hzero, ?_⟩
  exact (eval_unless_overflow htable hremainder hleast .standard).1 (by decide +kernel)

end Machine

end Exemplar
