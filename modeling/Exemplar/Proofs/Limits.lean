import Exemplar.Proofs.Growth

/-!
# Evaluations under other limits

The limits of a machine decide how far an evaluation gets, and nothing else. **What ends before it is cut
off ends in the same way under all limits that are no smaller** (`settled_under_limits`). **A learned
primitive that may nest one more call ends like its body** (`apply_learned_deeper`); only a fault that
names the depth of calls names the greater one.

Both compare two machines over the same table that differ in their limits alone (`similar_of_limits`).
The first comparison excuses every cut-off and lets the second machine go on longer. In the second one
the levels that are left are the same on both sides, so that both are cut off together.
-/

namespace Exemplar

/-! ## Results that are not cut off -/

/-- Limits are ordered by both of their bounds. -/
instance : LE Limits := ⟨fun l l' => l.fixCap ≤ l'.fixCap ∧ l.callDepth ≤ l'.callDepth⟩

/-- A result that no limit has cut off. -/
def Settled {α : Type} (r : Result α) : Prop := ∀ f, r = .error f → f.nonTermination = false

theorem settled_ok {α : Type} (a : α) : Settled (.ok a : Result α) := by
  intro f hf
  cases hf

theorem settled_error {α : Type} {f : Fault} (h : f.nonTermination = false) :
    Settled (.error f : Result α) := by
  intro g hg
  rwa [← Except.error.inj hg]

theorem Agree.eq_of_settled {α : Type} {P : α → Prop} {r r' : Result α}
    (h : Agree (.upTo fun f => f.nonTermination = true) P r r') (hr : Settled r) : r' = r := by
  refine h.eq_of_upTo fun f hf hcut => ?_
  rw [hr f hf] at hcut
  cases hcut

/-! ## Faults under a greater depth -/

namespace Fault

/-- The fault where calls may nest once more. -/
def deeper : Fault → Fault
  | .callDepthExceeded limit => .callDepthExceeded (limit + 1)
  | f => f

theorem deeper_eq_self {f : Fault} (h : ∀ limit, f ≠ .callDepthExceeded limit) : f.deeper = f := by
  cases f with
  | callDepthExceeded limit => exact absurd rfl (h limit)
  | _ => rfl

end Fault

/-- Every fault becomes the one of a greater depth; the depth that is named is the given one. -/
def Tolerance.deeper (depth : Nat) : Tolerance :=
  ⟨fun _ => False, fun f f' => f' = f.deeper ∧ ∀ limit, f = .callDepthExceeded limit → limit = depth⟩

namespace Agree

variable {α : Type} {P : α → Prop} {r r' : Result α} {depth : Nat}

theorem eq_of_deeper (h : Agree (.deeper depth) P r r') : r' = r.mapError Fault.deeper := by
  cases r with
  | ok a => exact h.1
  | error f =>
    obtain ⟨_, rfl, rfl, -⟩ := h.resolve_left id
    rfl

theorem depth_of_deeper (h : Agree (.deeper depth) P r r') {limit : Nat}
    (hr : r = .error (.callDepthExceeded limit)) : limit = depth := by
  subst hr
  obtain ⟨_, -, -, hdepth⟩ := h.resolve_left id
  exact hdepth limit rfl

end Agree

namespace Machine

variable {t : Table} {l l' : Limits} {τ : Tolerance}

theorem similar_of_limits (hplain : ∀ f : Fault, f.nonTermination = false → τ.matched f f)
    (hcap : τ.Cut l.fixCap l'.fixCap (.fixpointDiverged l.fixCap) (.fixpointDiverged l'.fixCap)) :
    Similar τ (fun _ => True) (t.machine l) (t.machine l') where
  fits _ := .inl rfl
  get _ _ := rfl
  callees _ _ _ _ := trivial
  plain := hplain
  cap _ _ _ := hcap

/-! ## Greater limits -/

/-- **What no limit has cut off stays the same under greater limits**, a value as well as a fault: the
evaluation of a term, the application of a primitive and the call of a function value. -/
theorem settled_under_limits (t : Table) {l l' : Limits} (h : l ≤ l') :
    (∀ e inputs, Settled ((t.machine l).eval e inputs) →
      (t.machine l').eval e inputs = (t.machine l).eval e inputs) ∧
    (∀ id args, Settled ((t.machine l).apply id args) →
      (t.machine l').apply id args = (t.machine l).apply id args) ∧
    (∀ f args, Settled ((t.machine l).call f args) →
      (t.machine l').call f args = (t.machine l).call f args) := by
  obtain ⟨hfix, hdepth⟩ := h
  have hsimilar : Similar (.upTo fun f => f.nonTermination = true) (fun _ => True)
      (t.machine l) (t.machine l') := similar_of_limits (fun _ _ => rfl) (.inl ⟨hfix, rfl⟩)
  have hprogram := Nat.succ_le_succ hdepth
  refine ⟨fun e inputs => ?_, fun id args => ?_, fun f args => ?_⟩
  · have hagree : Agree _ _ ((t.machine l).eval e inputs) ((t.machine l').eval e inputs) :=
      evalAt_agree hsimilar (.inl ⟨hprogram, rfl⟩) (Value.allWithin_true inputs) fun _ _ => trivial
    exact hagree.eq_of_settled
  · have hagree : Agree _ _ ((t.machine l).apply id args) ((t.machine l').apply id args) :=
      (callAt_agree hsimilar (.inl ⟨hprogram, rfl⟩)).apply id args trivial (Value.allWithin_true args)
    exact hagree.eq_of_settled
  · have hagree : Agree _ _ ((t.machine l).call f args) ((t.machine l').call f args) :=
      callAt_agree hsimilar (.inl ⟨hdepth, rfl⟩) f args (fun _ _ => trivial) (Value.allWithin_true args)
    exact hagree.eq_of_settled

/-- A body that iterates the identity, under limits that just suffice for it: called from a list, from a
program that then divides by zero, and in a composition. -/
theorem settled_under_limits_settle :
    let t := Table.builtins.push (.ofBody 23 "settle" ⟨[.int], .int⟩
      (.apply 15 [.lit (.func (.primitive 13)), .var 0]) 1)
    let settles : Term := .apply 16 [.lit (.func (.primitive 23)), .var 0]
    let l : Limits := ⟨1, 3⟩
    l ≤ Limits.standard ∧
      (Settled ((t.machine l).eval settles [.list [3, -1]]) ∧
        (t.machine .standard).eval settles [.list [3, -1]] =
          (t.machine l).eval settles [.list [3, -1]]) ∧
      (Settled ((t.machine l).apply 3 [.int 1, .int 0]) ∧
        (t.machine .standard).apply 3 [.int 1, .int 0] = (t.machine l).apply 3 [.int 1, .int 0]) ∧
      (Settled ((t.machine l).call (.compose (.primitive 5) (.primitive 0)) [.int 1, .int 2]) ∧
        (t.machine .standard).call (.compose (.primitive 5) (.primitive 0)) [.int 1, .int 2] =
          (t.machine l).call (.compose (.primitive 5) (.primitive 0)) [.int 1, .int 2]) := by
  intro t settles l
  have hl : l ≤ Limits.standard := ⟨by decide, by decide⟩
  have hlist : (t.machine l).eval settles [.list [3, -1]] = .ok (.list [3, -1]) := by decide +kernel
  have hzero : (t.machine l).apply 3 [.int 1, .int 0] = .error .divisionByZero := by decide +kernel
  have hsum : (t.machine l).call (.compose (.primitive 5) (.primitive 0)) [.int 1, .int 2] =
      .ok (.int (-3)) := by decide +kernel
  obtain ⟨heval, happly, hcall⟩ := settled_under_limits t hl
  have hlist' : Settled ((t.machine l).eval settles [.list [3, -1]]) := hlist ▸ settled_ok _
  have hzero' : Settled ((t.machine l).apply 3 [.int 1, .int 0]) := hzero ▸ settled_error rfl
  have hsum' : Settled ((t.machine l).call (.compose (.primitive 5) (.primitive 0))
      [.int 1, .int 2]) := hsum ▸ settled_ok _
  exact ⟨hl, ⟨hlist', heval _ _ hlist'⟩, ⟨hzero', happly _ _ hzero'⟩, ⟨hsum', hcall _ _ hsum'⟩⟩

/-! ## One more nested call -/

theorem evalAt_deeper (t : Table) (cap depth n : Nat) (inputs : List Value) (e : Term) :
    Agree (.deeper depth) (Value.Within fun _ => True)
      ((t.machine ⟨cap, depth⟩).evalAt n inputs e) ((t.machine ⟨cap, depth + 1⟩).evalAt n inputs e) := by
  have hplain : ∀ f : Fault, f.nonTermination = false → (Tolerance.deeper depth).matched f f := by
    intro f hf
    have hne : ∀ limit, f ≠ .callDepthExceeded limit := by
      rintro limit rfl
      cases hf
    exact ⟨(Fault.deeper_eq_self hne).symm, fun limit hlimit => absurd hlimit (hne limit)⟩
  have hsimilar : Similar (.deeper depth) (fun _ => True) (t.machine ⟨cap, depth⟩)
      (t.machine ⟨cap, depth + 1⟩) := similar_of_limits hplain (.inr ⟨rfl, rfl, by simp⟩)
  -- the machines have the same levels left, and name their own depth when none is left
  refine evalAt_agree hsimilar (.inr ⟨rfl, rfl, ?_⟩) (Value.allWithin_true inputs) fun _ _ => trivial
  rintro limit ⟨⟩
  rfl

/-- **The application of a learned primitive ends like its body with one nested call less to spare.** If
calls of the body nest too deep, so do those of the primitive, with the greater depth in the fault. In
every other case both end in the same way, also where the body was evaluated before it became a
primitive, over a table that has grown since. -/
theorem apply_learned_deeper {t : Table} {id : PrimId} {p : Primitive} {body : Term}
    (hget : t.get? id = some p) (hrule : p.rule = .learned body) {args : List Value}
    (hlength : args.length = p.arity) (cap depth : Nat) :
    let r := (t.machine ⟨cap, depth⟩).eval body args
    let r' := (t.machine ⟨cap, depth + 1⟩).apply id args
    r' = r.mapError Fault.deeper ∧
    (∀ limit, r = .error (.callDepthExceeded limit) → limit = depth) ∧
    ((∀ limit, r ≠ .error (.callDepthExceeded limit)) → r' = r) ∧
    ∀ u : Table, u.Extends t → u.Sealed → (∀ j ∈ body.primitives, j < u.size) →
      Value.AllWithin (· < u.size) args →
      (∀ limit, (u.machine ⟨cap, depth⟩).eval body args ≠ .error (.callDepthExceeded limit)) →
        r' = (u.machine ⟨cap, depth⟩).eval body args := by
  intro r r'
  have hbody : r' = (t.machine ⟨cap, depth + 1⟩).evalAt (depth + 1) args body :=
    applyAt_learned hget hrule hlength (depth + 1)
  have hagree : Agree (.deeper depth) (Value.Within fun _ => True) r r' :=
    hbody ▸ evalAt_deeper t cap depth (depth + 1) args body
  have heq : r' = r.mapError Fault.deeper := hagree.eq_of_deeper
  have hsame : (∀ limit, r ≠ .error (.callDepthExceeded limit)) → r' = r := by
    intro huncut
    rw [heq]
    cases hr : r with
    | ok v => rfl
    | error f => exact congrArg Except.error (Fault.deeper_eq_self fun limit hf => huncut limit (hf ▸ hr))
  refine ⟨heq, fun limit => hagree.depth_of_deeper, hsame, ?_⟩
  intro u hextends hsealed hscope hargs huncut
  have hgrown : r = (u.machine ⟨cap, depth⟩).eval body args :=
    hextends.evalAt_eq hsealed _ hargs hscope
  rw [← hgrown] at huncut ⊢
  exact hsame huncut

/-- Four times a number, by a body that doubles twice. One nested call suffices for the body, and two for
the primitive it became; with fewer both are cut off. -/
theorem apply_learned_deeper_quadruple :
    let u := Table.builtins.push (.ofBody 23 "double" ⟨[.int], .int⟩ (.apply 0 [.var 0, .var 0]) 1)
    let body : Term := .apply 23 [.apply 23 [.var 0]]
    let t := u.push (.ofBody 24 "quadruple" ⟨[.int], .int⟩ body 2)
    ((t.machine ⟨100, 0⟩).eval body [.int 3] = .error (.callDepthExceeded 0) ∧
      (t.machine ⟨100, 1⟩).apply 24 [.int 3] = .error (.callDepthExceeded 1)) ∧
    (u.machine ⟨100, 1⟩).eval body [.int 3] = .ok (.int 12) ∧
      (t.machine ⟨100, 2⟩).apply 24 [.int 3] = .ok (.int 12) := by
  intro u body t
  have hlearned := @apply_learned_deeper t 24 _ body rfl rfl [.int 3] rfl 100
  have hcut : (t.machine ⟨100, 0⟩).eval body [.int 3] = .error (.callDepthExceeded 0) := by
    decide +kernel
  have hvalue : (u.machine ⟨100, 1⟩).eval body [.int 3] = .ok (.int 12) := by decide +kernel
  refine ⟨⟨hcut, ?_⟩, hvalue, ?_⟩
  · rw [(hlearned 0).1, hcut]
    rfl
  · have hsealed : u.Sealed := Table.WellTyped.sealed (by decide)
    rw [(hlearned 1).2.2.2 u (u.extends_push _) hsealed (by decide) (by simp) (by simp [hvalue]),
      hvalue]

end Machine

end Exemplar
