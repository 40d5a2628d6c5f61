import Exemplar.Proofs.Enumeration.Levels

/-!
# Soundness of enumeration

**A program that an enumeration returns reproduces every example** (`run_sound`), has the type of the
problem, and its size is the one returned, within the bound. The search itself never evaluates the
program: it applies primitives to outputs that were kept, a conditional to those of both branches. The
bodies of the table may be ill-typed or call each other without end. But a conditional that declares more
than three parameters can be applied to outputs and not be evaluated (`run_unsound`).

Proof. Every program kept is sound (`Entry.Sound`), a program that ends the search too, and its outputs
are the wanted ones (`search_explored`).
-/

namespace Exemplar.Enumeration

/-- **Soundness.** A solution reproduces every example, has the type of the problem and the size that
is returned with it, and that size is within the bound. -/
theorem run_sound {m : Machine} (ht : m.table.Indexed) (hcosts : m.table.Costed)
    (hternary : m.table.Ternary) {b : Bounds} {examples : List Example} {out : Outcome} (hrun : run m b examples = .ok out) {sol : Solution}
    (hsol : out.solution = some sol) :
    ∃ signature, Problem.signature examples = .ok signature ∧
      (∀ ex ∈ examples, m.eval sol.term ex.inputs = .ok ex.output) ∧
      sol.term.infer m.table signature.params = .ok signature.ret ∧
      sol.size = sol.term.size m.table ∧ sol.size ≤ b.maxSize := by
  obtain ⟨signature, hsig, -, hmax, rfl⟩ := run_eq_ok.mp hrun
  refine ⟨signature, hsig, ?_⟩
  have hexplored : (search (b.task m examples signature)).Explored (b.task m examples signature) :=
    search_explored ht hcosts hternary (Nat.one_le_iff_ne_zero.mpr hmax)
  revert hexplored hsol
  generalize search (b.task m examples signature) = halted
  obtain ⟨s, e | reason⟩ := halted
  · rintro hsol ⟨hsound, ⟨hty, houtputs⟩, hsize, -⟩
    obtain rfl : ⟨e.term, e.size⟩ = sol := Option.some.inj hsol
    have hyields := hsound.yields
    rw [houtputs] at hyields
    exact ⟨yields_target_iff.mp hyields, hty ▸ hsound.typed, hsound.sized.symm, hsize⟩
  · intro hsol
    cases hsol

theorem run_conditional :
    run ((Table.ofBuiltins [.cond]).machine .standard) ⟨[1, 2], 5, 100, fun _ => false⟩
      [⟨[.bool true], .int 1⟩, ⟨[.bool false], .int 2⟩] =
        .ok ⟨some ⟨.apply 0 [.var 0, .lit (.int 1), .lit (.int 2)], 5⟩, ⟨4, 8, 7, 1, 0, none⟩⟩ := by
  have hmachine : ((Table.ofBuiltins [.cond]).machine .standard).table =
      Table.ofBuiltins [.cond] := rfl
  have htable : (Table.ofBuiltins [.cond]).toList = [.ofBuiltin 0 .cond] := rfl
  have hterminals : Terminal.all (Table.ofBuiltins [.cond]) [.bool] [1, 2] =
      [⟨.var 0, .bool⟩, ⟨.lit (.int 1), .int⟩, ⟨.lit (.int 2), .int⟩, ⟨.lit (.bool true), .bool⟩,
        ⟨.lit (.bool false), .bool⟩, ⟨.lit (.list []), .list⟩] := rfl
  have hthen : ∀ a b : Int, ((Table.ofBuiltins [.cond]).machine .standard).apply 0
      [.bool true, .int a, .int b] = .ok (.int a) := fun _ _ => rfl
  have helse : ∀ a b : Int, ((Table.ofBuiltins [.cond]).machine .standard).apply 0
      [.bool false, .int a, .int b] = .ok (.int b) := fun _ _ => rfl
  refine run_eq_ok.mpr ⟨⟨[.bool], .int⟩, rfl, by decide, by decide, ?_⟩
  -- the hash of a value does not reduce, so the search is run by rewriting
  simp [Bounds.task, search, Halted.outcome, firstLevel, levelsFrom, level, State.start,
    State.finishLevel, Stats.zero, hmachine, htable, hterminals, hthen, helse, considerTerminal,
    Machine.eval, Machine.evalAt, Machine.evalWith, offer, count, clockStride, checkClock,
    Task.target, compose, composeSplit, compositions, List.range, List.range.loop, pool, forTuples,
    considerApplication, applyRows, Primitive.ofBuiltin, Primitive.arity, Builtin.signature,
    Builtin.cost, Signature.arity, bind, Except.bind, pure, Except.pure, throw, throwThe,
    MonadExceptOf.throw]

theorem run_conditional_sound :
    let m := (Table.ofBuiltins [.cond]).machine .standard
    let examples : List Example := [⟨[.bool true], .int 1⟩, ⟨[.bool false], .int 2⟩]
    let e : Term := .apply 0 [.var 0, .lit (.int 1), .lit (.int 2)]
    ∃ signature, Problem.signature examples = .ok signature ∧
      (∀ ex ∈ examples, m.eval e ex.inputs = .ok ex.output) ∧
      e.infer m.table signature.params = .ok signature.ret ∧ 5 = e.size m.table ∧ 5 ≤ 5 :=
  run_sound (by decide) (by decide) (by decide) run_conditional rfl

/-- A conditional that declares a parameter more than it reads. -/
def wideConditional : Table :=
  ⟨#[⟨0, "if", ⟨[.bool, .int, .int, .int], .int⟩, .builtin .cond, 1⟩]⟩

theorem run_wideConditional :
    run (wideConditional.machine .standard) ⟨[1, 2], 5, 100, fun _ => false⟩
      [⟨[.bool true], .int 1⟩, ⟨[.bool false], .int 2⟩] =
        .ok ⟨some ⟨.apply 0 [.var 0, .lit (.int 1), .lit (.int 1), .lit (.int 2)], 5⟩,
          ⟨4, 8, 7, 1, 0, none⟩⟩ := by
  have hmachine : (wideConditional.machine .standard).table = wideConditional := rfl
  have htable : wideConditional.toList =
      [⟨0, "if", ⟨[.bool, .int, .int, .int], .int⟩, .builtin .cond, 1⟩] := rfl
  have hterminals : Terminal.all wideConditional [.bool] [1, 2] =
      [⟨.var 0, .bool⟩, ⟨.lit (.int 1), .int⟩, ⟨.lit (.int 2), .int⟩, ⟨.lit (.bool true), .bool⟩,
        ⟨.lit (.bool false), .bool⟩, ⟨.lit (.list []), .list⟩] := rfl
  have hthen : ∀ c a b : Int, (wideConditional.machine .standard).apply 0
      [.bool true, .int c, .int a, .int b] = .ok (.int a) := fun _ _ _ => rfl
  have helse : ∀ c a b : Int, (wideConditional.machine .standard).apply 0
      [.bool false, .int c, .int a, .int b] = .ok (.int b) := fun _ _ _ => rfl
  refine run_eq_ok.mpr ⟨⟨[.bool], .int⟩, rfl, by decide, by decide, ?_⟩
  -- the hash of a value does not reduce, so the search is run by rewriting
  simp [Bounds.task, search, Halted.outcome, firstLevel, levelsFrom, level, State.start,
    State.finishLevel, Stats.zero, hmachine, htable, hterminals, hthen, helse, considerTerminal,
    Machine.eval, Machine.evalAt, Machine.evalWith, offer, count, clockStride, checkClock,
    Task.target, compose, composeSplit, compositions, List.range, List.range.loop, pool, forTuples,
    considerApplication, applyRows, Primitive.arity, Signature.arity, bind, Except.bind, pure,
    Except.pure, throw, throwThe, MonadExceptOf.throw]

/-- A solution that is malformed: its conditional has four arguments, so it has no value on either
example. -/
theorem run_unsound :
    let m := wideConditional.machine .standard
    let e : Term := .apply 0 [.var 0, .lit (.int 1), .lit (.int 1), .lit (.int 2)]
    m.table.Indexed ∧ m.table.Costed ∧
      run m ⟨[1, 2], 5, 100, fun _ => false⟩ [⟨[.bool true], .int 1⟩, ⟨[.bool false], .int 2⟩] =
        .ok ⟨some ⟨e, 5⟩, ⟨4, 8, 7, 1, 0, none⟩⟩ ∧
      ∀ p, m.eval e [.bool p] = .error (.arity "if" 3 4) :=
  ⟨by decide, by decide, run_wideConditional, fun _ => rfl⟩

end Exemplar.Enumeration
