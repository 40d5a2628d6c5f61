import Exemplar.Proofs.Eval
import Mathlib.Data.Nat.Find

/-!
# Fixpoints by iteration

**The fixpoint operation returns the first fixpoint among the iterates of its function**, and says so if
there is none among the first ones (`fix_first_fixpoint`).

The iterates of a function value are defined apart from the loop. An iterate *moves* if the function has
an integer for it, and another one. The loop follows the iterates as long as they move
(`iterate_of_moves`); if all of them do, the iteration is cut off. From the first one that does not move
the iterates stay what they are (`iterates_of_rest`), so that the loop ends in the last one that it may
reach (`iterate_eq_iterates`), be it an integer or a fault.
-/

namespace Exemplar.Machine

variable {m : Machine} {call : Caller} {f : Fn} {x : Int}

/-! ## Iterates -/

/-- The integer that a function value has for an integer. -/
def image (call : Caller) (f : Fn) (x : Int) : Result Int := call f [.int x] >>= Value.toInt

/-- What a number of applications of a function value to an integer comes to. -/
def iterates (call : Caller) (f : Fn) (x : Int) : Nat → Result Int
  | 0 => .ok x
  | i + 1 => iterates call f x i >>= image call f

/-- The function value has an integer for an iterate, and another one. -/
def Moves (call : Caller) (f : Fn) (x : Int) (i : Nat) : Prop :=
  ∃ y, iterates call f x (i + 1) = .ok y ∧ iterates call f x i ≠ .ok y

theorem image_eq_ok {y : Int} : image call f x = .ok y ↔ call f [.int x] = .ok (.int y) := by
  rw [image, bind_eq_ok]
  constructor
  · rintro ⟨v, hv, hy⟩
    cases v with
    | int n => rw [hv, Except.ok.inj hy]
    | _ => cases hy
  · exact fun h => ⟨.int y, h, rfl⟩

theorem iterates_succ {i : Nat} {y : Int} (h : iterates call f x i = .ok y) :
    iterates call f x (i + 1) = image call f y := by
  rw [iterates, h]
  rfl

theorem iterates_of_error {i : Nat} {e : Fault} (h : iterates call f x i = .error e) {j : Nat}
    (hij : i ≤ j) : iterates call f x j = .error e := by
  induction j, hij using Nat.le_induction with
  | base => exact h
  | succ j _ ih =>
    rw [iterates, ih]
    rfl

theorem eq_of_rest {i : Nat} (h : ¬ Moves call f x i) {y : Int}
    (hnext : iterates call f x (i + 1) = .ok y) : iterates call f x i = .ok y := by
  by_contra hne
  exact h ⟨y, hnext, hne⟩

theorem iterates_of_rest {i : Nat} (h : ¬ Moves call f x i) {j : Nat} (hij : i + 1 ≤ j) :
    iterates call f x j = iterates call f x (i + 1) := by
  cases hnext : iterates call f x (i + 1) with
  | error e => exact iterates_of_error hnext hij
  | ok y =>
    have hfixed : image call f y = .ok y := (iterates_succ (eq_of_rest h hnext)).symm.trans hnext
    induction j, hij using Nat.le_induction with
    | base => exact hnext
    | succ j _ ih => rw [iterates_succ ih, hfixed]

theorem not_moves_of_eq {i : Nat} (h : iterates call f x (i + 1) = iterates call f x i) :
    ¬ Moves call f x i := by
  rintro ⟨y, hnext, hne⟩
  exact hne (h ▸ hnext)

theorem moves_of_ne {i : Nat} {y : Int} (hnext : iterates call f x (i + 1) = .ok y)
    (hne : iterates call f x (i + 1) ≠ iterates call f x i) : Moves call f x i :=
  ⟨y, hnext, fun h => hne (hnext.trans h.symm)⟩

/-! ## The loop -/

theorem iterate_succ (n : Nat) : m.iterate call f (n + 1) x =
    image call f x >>= fun y => if y = x then pure (.int x) else m.iterate call f n y := by
  rw [iterate, image, bind_assoc]

theorem iterate_of_moves {i : Nat} (h : ∀ j < i, Moves call f x j) : ∃ y,
    iterates call f x i = .ok y ∧ ∀ n, m.iterate call f (i + n) x = m.iterate call f n y := by
  induction i with
  | zero => exact ⟨x, rfl, fun n => by rw [Nat.zero_add]⟩
  | succ i ih =>
    obtain ⟨y, hy, hloop⟩ := ih fun j hj => h j (Nat.lt_succ_of_lt hj)
    obtain ⟨z, hz, hne⟩ := h i (Nat.lt_succ_self i)
    have himage : image call f y = .ok z := (iterates_succ hy).symm.trans hz
    have hzy : z ≠ y := by
      rintro rfl
      exact hne hy
    refine ⟨z, hz, fun n => ?_⟩
    calc m.iterate call f (i + 1 + n) x
        = m.iterate call f (i + (n + 1)) x := by rw [Nat.add_right_comm, Nat.add_assoc]
      _ = m.iterate call f (n + 1) y := hloop (n + 1)
      _ = if z = y then pure (.int y) else m.iterate call f n z := by rw [iterate_succ, himage]; rfl
      _ = m.iterate call f n z := if_neg hzy

theorem iterate_of_all_move {n : Nat} (h : ∀ i < n, Moves call f x i) :
    m.iterate call f n x = .error (.fixpointDiverged m.limits.fixCap) := by
  obtain ⟨y, -, hloop⟩ := iterate_of_moves (m := m) h
  exact hloop 0

/-- Where some iterate in reach of the loop does not move, the loop ends in the last one in reach. -/
theorem iterate_eq_iterates {n : Nat} (h : ∃ i < n, ¬ Moves call f x i) :
    m.iterate call f n x = (iterates call f x n).map .int := by
  classical
  -- the first iterate that does not move is where the loop ends
  obtain ⟨i, ⟨hin, hrest⟩, hfirst⟩ : ∃ i, (i < n ∧ ¬ Moves call f x i) ∧
      ∀ j < i, ¬ (j < n ∧ ¬ Moves call f x j) := ⟨Nat.find h, Nat.find_spec h, fun _ => Nat.find_min h⟩
  have hmoves : ∀ j < i, Moves call f x j := fun j hj => by
    simpa [Nat.lt_trans hj hin] using hfirst j hj
  obtain ⟨y, hy, hloop⟩ := iterate_of_moves (m := m) hmoves
  obtain ⟨k, rfl⟩ : ∃ k, n = i + (k + 1) := ⟨n - i - 1, by omega⟩
  rw [hloop, iterate_succ, iterates_of_rest hrest (Nat.add_le_add_left (Nat.le_add_left 1 k) i),
    iterates_succ hy]
  cases himage : image call f y with
  | error e => rfl
  | ok z =>
    have hsame := eq_of_rest hrest ((iterates_succ hy).trans himage)
    have hzy : z = y := Except.ok.inj (hsame.symm.trans hy)
    show (if z = y then pure (.int y) else m.iterate call f k z) = .ok (.int z)
    rw [if_pos hzy, hzy]
    rfl

theorem iterate_of_rest {n i : Nat} (hin : i < n) (hrest : ¬ Moves call f x i) :
    m.iterate call f n x = (iterates call f x (i + 1)).map .int := by
  rw [iterate_eq_iterates ⟨i, hin, hrest⟩, iterates_of_rest hrest hin]

theorem iterate_eq_ok_iff {n : Nat} {w : Value} : m.iterate call f n x = .ok w ↔
    ∃ i < n, ∃ v, w = .int v ∧ iterates call f x i = .ok v ∧ iterates call f x (i + 1) = .ok v := by
  constructor
  · intro h
    by_cases hall : ∀ i < n, Moves call f x i
    · rw [iterate_of_all_move hall] at h
      cases h
    · obtain ⟨i, hin, hrest⟩ : ∃ i < n, ¬ Moves call f x i := by simpa using hall
      rw [iterate_of_rest hin hrest] at h
      cases hnext : iterates call f x (i + 1) with
      | error e =>
        rw [hnext] at h
        cases h
      | ok v =>
        rw [hnext] at h
        exact ⟨i, hin, v, (Except.ok.inj h).symm, eq_of_rest hrest hnext, hnext⟩
  · rintro ⟨i, hin, v, rfl, hv, hnext⟩
    have hrest := not_moves_of_eq (hnext.trans hv.symm)
    rw [iterate_of_rest hin hrest, hnext]
    rfl

theorem iterate_eq_error_of_call {n i : Nat} (hin : i < n) {y : Int} {e : Fault}
    (hy : iterates call f x i = .ok y) (he : image call f y = .error e) :
    m.iterate call f n x = .error e := by
  have hnext : iterates call f x (i + 1) = .error e := (iterates_succ hy).trans he
  have hrest : ¬ Moves call f x i := by
    rintro ⟨z, hz, -⟩
    rw [hnext] at hz
    cases hz
  rw [iterate_of_rest hin hrest, hnext]
  rfl

theorem iterate_eq_diverged_iff {n : Nat} :
    (m.iterate call f n x = .error (.fixpointDiverged m.limits.fixCap) ∧
      ∀ i < n, iterates call f x (i + 1) ≠ .error (.fixpointDiverged m.limits.fixCap)) ↔
    ∀ i < n, Moves call f x i := by
  constructor
  · rintro ⟨h, hcalls⟩
    by_contra hall
    obtain ⟨i, hin, hrest⟩ : ∃ i < n, ¬ Moves call f x i := by simpa using hall
    rw [iterate_of_rest hin hrest] at h
    cases hnext : iterates call f x (i + 1) with
    | ok y =>
      rw [hnext] at h
      cases h
    | error e =>
      rw [hnext] at h
      exact hcalls i hin (hnext.trans (congrArg Except.error (Except.error.inj h)))
  · intro hall
    refine ⟨iterate_of_all_move hall, fun i hin => ?_⟩
    obtain ⟨y, hy, -⟩ := hall i hin
    rw [hy]
    nofun

/-! ## The fixpoint operation -/

theorem apply_fix {id : PrimId} {p : Primitive} (hget : m.table.get? id = some p)
    (hrule : p.rule = .builtin .fix) (harity : p.arity = 2) (f : Fn) (x : Int) :
    m.apply id [.func f, .int x] = m.iterate m.call f m.limits.fixCap x := by
  rw [apply, applyAt, callAt, applyWith, hget]
  simp only [hrule, harity, List.length_cons, List.length_nil, if_true]
  rfl

/-- **The fixpoint operation returns the first fixpoint of its iterates.** It has a value exactly if an
iterate within the cap equals the next one, and that is its value. A call among the first ones that fails,
or has no integer, ends it with the fault of the call; no iterate before equals its successor then,
because the later ones would all be the same. The verdict that there is no fixpoint is its own, and not a
fault of a call, exactly if all iterates up to the cap are defined and each differs from the next one. A
value that it returned is one on which the function, and the operation again, return the value itself. -/
theorem fix_first_fixpoint {t : Table} {id : PrimId} {p : Primitive} (hget : t.get? id = some p)
    (hrule : p.rule = .builtin .fix) (harity : p.arity = 2) (l : Limits) (f : Fn) (x : Int) :
    let m := t.machine l
    let r := m.apply id [.func f, .int x]
    let iterate := iterates m.call f x
    (∀ w, r = .ok w ↔
      ∃ i < l.fixCap, ∃ v, w = .int v ∧ iterate i = .ok v ∧ iterate (i + 1) = .ok v) ∧
    (∀ i < l.fixCap, ∀ y e, iterate i = .ok y → m.call f [.int y] >>= Value.toInt = .error e →
      r = .error e) ∧
    ((r = .error (.fixpointDiverged l.fixCap) ∧
        ∀ i < l.fixCap, iterate (i + 1) ≠ .error (.fixpointDiverged l.fixCap)) ↔
      ∀ i < l.fixCap, (∃ y, iterate (i + 1) = .ok y) ∧ iterate (i + 1) ≠ iterate i) ∧
    ∀ w, r = .ok w → m.call f [w] = .ok w ∧ m.apply id [.func f, w] = .ok w := by
  intro m r iterate
  have hloop : ∀ y, m.apply id [.func f, .int y] = m.iterate m.call f l.fixCap y :=
    fun y => apply_fix hget hrule harity f y
  have hr : r = m.iterate m.call f l.fixCap x := hloop x
  refine ⟨fun w => hr ▸ iterate_eq_ok_iff, fun i hi y e hy he => ?_, ?_, fun w hw => ?_⟩
  · exact hr ▸ iterate_eq_error_of_call hi hy he
  · have hmoves : ∀ i, Moves m.call f x i ↔
        (∃ y, iterate (i + 1) = .ok y) ∧ iterate (i + 1) ≠ iterate i :=
      fun i => ⟨fun h => ⟨h.imp fun y hy => hy.1, fun heq => not_moves_of_eq heq h⟩,
        fun ⟨⟨y, hy⟩, hne⟩ => moves_of_ne hy hne⟩
    simp only [← hmoves]
    exact hr ▸ iterate_eq_diverged_iff
  · rw [hr] at hw
    obtain ⟨i, hi, v, rfl, hv, hnext⟩ := iterate_eq_ok_iff.mp hw
    have hfixed : image m.call f v = .ok v := (iterates_succ hv).symm.trans hnext
    refine ⟨image_eq_ok.mp hfixed, ?_⟩
    rw [hloop]
    exact iterate_eq_ok_iff.mpr ⟨0, Nat.zero_lt_of_lt hi, v, rfl, rfl, hfixed⟩

/-- Halving five comes to rest with the fourth call: under a cap of four the fixpoint is found, and under a
cap of three it is just missed. A function that has no integer ends the iteration at once. -/
theorem fix_first_fixpoint_halve :
    let t := Table.builtins.push
      (.ofBody 23 "halve" ⟨[.int], .int⟩ (.apply 3 [.var 0, .lit (.int 2)]) 1)
    let halve : Fn := .primitive 23
    let head : Fn := .primitive 19
    t.get? 15 = some (.ofBuiltin 15 .fix) ∧
      (t.machine ⟨4, 64⟩).apply 15 [.func halve, .int 5] = .ok (.int 0) ∧
      (t.machine ⟨4, 64⟩).apply 15 [.func halve, .int 0] = .ok (.int 0) ∧
      (t.machine ⟨3, 64⟩).apply 15 [.func halve, .int 5] = .error (.fixpointDiverged 3) ∧
      (t.machine ⟨3, 64⟩).apply 15 [.func head, .int 5] = .error (.illTyped .list (.int 5)) := by
  intro t halve head
  have hget : t.get? 15 = some (.ofBuiltin 15 .fix) := rfl
  obtain ⟨hvalue, -, -, hagain⟩ := fix_first_fixpoint hget rfl rfl ⟨4, 64⟩ halve 5
  obtain ⟨-, -, hverdict, -⟩ := fix_first_fixpoint hget rfl rfl ⟨3, 64⟩ halve 5
  obtain ⟨-, hfault, -⟩ := fix_first_fixpoint hget rfl rfl ⟨3, 64⟩ head 5
  have hzero := (hvalue (.int 0)).mpr
    ⟨3, by decide, 0, rfl, by decide +kernel, by decide +kernel⟩
  refine ⟨hget, hzero, (hagain _ hzero).2, (hverdict.mpr (by decide +kernel)).1, ?_⟩
  exact hfault 0 (by decide) 5 _ rfl (by decide +kernel)

end Exemplar.Machine
