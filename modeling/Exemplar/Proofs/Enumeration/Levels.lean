import Exemplar.Proofs.Enumeration.Steps
import Mathlib.Algebra.Order.BigOperators.Group.List
import Mathlib.Algebra.Order.Group.Nat

/-!
# Levels of a search

Between two levels a state is `Settled`: it is valid, and it represents every terminal and every
application of finished programs whose size was reached. The first level settles the search, every
later level keeps it settled and finishes one size more (`level_post`), so by induction the whole
search ends either in the middle of a level on top of a settled state or, when no size is left, in a
settled state of all sizes (`search_explored`).
-/

namespace Exemplar.Enumeration

variable {k : Task} {s : State}

/-! ## Finishing a level -/

namespace State

theorem finished_finishLevel (s : State) (size : Nat) : (s.finishLevel size).finished = s.kept := by
  simp [finishLevel, finished, kept]

theorem kept_finishLevel (s : State) (size : Nat) : (s.finishLevel size).kept = s.kept := by
  rw [kept, finished_finishLevel]
  exact List.append_nil _

theorem size_finishLevel (s : State) (size : Nat) :
    (s.finishLevel size).levels.size = s.present :=
  Array.size_push _

theorem Represents.finishLevel {e : Term} {n : Nat} (h : s.Represents k e n) (size : Nat) :
    (s.finishLevel size).Represents k e n := by
  rw [Represents, kept_finishLevel]
  exact h

theorem Valid.finishLevel (hs : s.Valid k) (size : Nat) : (s.finishLevel size).Valid k := by
  refine ⟨?_, fun e he => absurd he (Array.not_mem_empty e), ?_, ?_⟩
  · intro n level hlevel e he
    have hget := Array.getElem?_push.symm.trans hlevel
    split at hget
    · rename_i hn
      obtain rfl := Option.some.inj hget
      obtain ⟨hsound, hsize⟩ := hs.fresh e (Array.mem_toList_iff.mp he)
      exact ⟨hsound, hsize.trans (congrArg (· + 1) hn.symm)⟩
    · exact hs.finished n level hget e he
  · intro outputs houtputs
    rw [kept_finishLevel]
    exact hs.seen outputs houtputs
  · intro e he
    exact hs.unsolved e (kept_finishLevel s size ▸ he)

end State

/-! ## Settled states -/

/-- A state between two levels: all terminals are represented, and all applications of finished
programs up to the size that was reached. Applications of weight one are left out, since nothing is
applied on the level of the terminals. -/
structure State.Settled (k : Task) (s : State) : Prop where
  valid : s.Valid k
  closed : s.fresh = #[]
  reached : 1 ≤ s.levels.size
  terminals : ∀ l ∈ Terminal.all k.machine.table k.signature.params k.intConstants,
    s.Represents k l.term 1
  applications : ∀ p ∈ k.machine.table.toList, ∀ sizes e, s.Applied p sizes e →
    2 ≤ p.cost + sizes.sum → p.cost + sizes.sum ≤ s.levels.size →
      s.Represents k e (p.cost + sizes.sum)

namespace State.Settled

theorem kept_eq (hs : s.Settled k) : s.kept = s.finished := by
  rw [kept, hs.closed]
  exact List.append_nil _

theorem counted (hs : s.Settled k) (stats : Stats) (readings : Nat) :
    Settled k { s with stats := stats, readings := readings } :=
  ⟨hs.valid.counted stats readings, hs.closed, hs.reached, hs.terminals, hs.applications⟩

theorem finishLevel (hs : s.Settled k) (hcosts : k.machine.table.Costed) {s' : State}
    (hvalid : s'.Valid k) (hext : s.Extends s')
    (hrep : ∀ p ∈ k.machine.table.toList, ∀ sizes e, s.Applied p sizes e →
      p.cost + sizes.sum = s.present → s'.Represents k e s.present) (size : Nat) :
    (s'.finishLevel size).Settled k := by
  refine ⟨hvalid.finishLevel size, rfl, ?_, ?_, ?_⟩
  · rw [size_finishLevel]
    exact Nat.le_add_left 1 _
  · exact fun l hl => ((hs.terminals l hl).extends hext).finishLevel size
  · intro p hp sizes e happlied htwo hle
    rw [size_finishLevel, hext.present_eq] at hle
    obtain ⟨args, hargs, htys, rfl, he⟩ := happlied
    rw [finished_finishLevel] at hargs
    -- each argument is smaller than the application, so it stands on a level that was finished
    have hfinished : ∀ a ∈ args, a ∈ s.finished := by
      intro a ha
      have hsum := List.le_sum_of_mem (List.mem_map_of_mem (f := Entry.size) ha)
      have hcost := hcosts p hp
      rcases mem_kept.mp (hargs a ha) with hmem | hmem
      · rwa [hext.finished_eq] at hmem
      · obtain ⟨-, hsize⟩ := hvalid.fresh a hmem
        rw [hext.present_eq] at hsize
        omega
    have happlied : s.Applied p (args.map Entry.size) e := ⟨args, hfinished, htys, rfl, he⟩
    by_cases hlast : p.cost + (args.map Entry.size).sum = s.present
    · rw [hlast]
      exact (hrep p hp _ e happlied hlast).finishLevel size
    · have hbefore : p.cost + (args.map Entry.size).sum ≤ s.levels.size :=
        Nat.le_of_lt_succ (Nat.lt_of_le_of_ne hle hlast)
      exact ((hs.applications p hp _ e happlied htwo hbefore).extends hext).finishLevel size

end State.Settled

/-! ## One level -/

theorem start_valid (k : Task) : State.start.Valid k :=
  ⟨by simp [State.start], by simp [State.start], by simp [State.start],
    by simp [State.start, State.kept, State.finished]⟩

theorem firstLevel_post (ht : k.machine.table.Indexed) :
    Post (fun s => s.Settled k ∧ s.levels.size = 1) (Halted.Ended k 1) (firstLevel k .start) := by
  have hterminals := Advances.foldlM (start_valid k) (considerTerminal k)
    (Terminal.all k.machine.table k.signature.params k.intConstants)
    (T := fun l e => e = l.term) fun l hl s' hs' hext =>
      considerTerminal_advances ht hs' hext.present_eq hl
  refine Post.bind hterminals fun s' ⟨hvalid, hext, hrep⟩ => ?_
  have hsize : (s'.finishLevel 1).levels.size = 1 :=
    (s'.size_finishLevel 1).trans hext.present_eq
  refine ⟨⟨hvalid.finishLevel 1, rfl, Nat.le_of_eq hsize.symm, ?_, ?_⟩, hsize⟩
  · exact fun l hl => State.Represents.finishLevel (hrep _ ⟨l, hl, rfl⟩) 1
  · intro p hp sizes e happlied htwo hle
    omega

theorem level_post (ht : k.machine.table.Indexed) (hcosts : k.machine.table.Costed)
    (hternary : k.machine.table.Ternary) (hs : s.Settled k) :
    Post (fun s' => s'.Settled k ∧ s'.levels.size = s.levels.size + 1) (Halted.Ended k s.present)
      (level k s.present s) := by
  have hcompose := Advances.foldlM hs.valid (compose k s.levels s.present)
    k.machine.table.toList
    (T := fun p e => ∃ sizes, p.cost + sizes.sum = s.present ∧ s.Applied p sizes e) ?_
  · refine Post.bind hcompose fun s' ⟨hvalid, hext, hrep⟩ => ?_
    have hsettled := hs.finishLevel hcosts hvalid hext
      (fun p hp sizes e happlied hsum => hrep e ⟨p, hp, sizes, hsum, happlied⟩) s.present
    have hsize := (s'.size_finishLevel s.present).trans hext.present_eq
    rw [checkClock]
    split
    · simp [Post, Halted.Ended]
    · exact ⟨hsettled.counted _ _, hsize⟩
  · intro p hp s' hs' hext
    exact compose_advances_later hternary hext hs' (ht.get?_id hp) (hcosts p hp) rfl

/-! ## The whole search -/

/-- The search has ended on top of a settled state of at least `low` and fewer than `high` sizes. -/
def Halted.EndedWithin (k : Task) (low high : Nat) (h : Halted) : Prop :=
  ∃ s : State, s.Settled k ∧ low ≤ s.levels.size ∧ s.levels.size < high ∧ h.Ended k s.present

theorem levelsFrom_post (ht : k.machine.table.Indexed) (hcosts : k.machine.table.Costed)
    (hternary : k.machine.table.Ternary) (number : Nat) (hs : s.Settled k) :
    Post (fun s' => s'.Settled k ∧ s'.levels.size = s.levels.size + number)
      (Halted.EndedWithin k s.levels.size (s.levels.size + number))
      (levelsFrom k number s.present s) := by
  induction number generalizing s with
  | zero => exact ⟨hs, rfl⟩
  | succ number ih =>
    refine Post.bind (Post.imp (level_post ht hcosts hternary hs) (fun _ h => h) ?_) ?_
    · exact fun h hended => ⟨s, hs, Nat.le_refl _, by omega, hended⟩
    · rintro s' ⟨hs', hsize⟩
      have hnext := ih hs'
      rw [State.present, hsize] at hnext
      refine Post.imp hnext ?_ ?_
      · rintro s'' ⟨hs'', hsize'⟩
        exact ⟨hs'', by omega⟩
      · rintro h ⟨s₀, hs₀, hlow, hhigh, hended⟩
        exact ⟨s₀, hs₀, by omega, by omega, hended⟩

/-- What is known at the end of a search: a program that is found is sound and solves the problem, and
all smaller sizes were finished before; if no size is left, all were finished. -/
def Halted.Explored (k : Task) : Halted → Prop
  | ⟨_, .found e⟩ => e.Sound k ∧ e.Solves k ∧ e.size ≤ k.maxSize ∧
    (e.size = 1 ∨ ∃ s : State, s.Settled k ∧ e.size = s.present)
  | ⟨_, .stopped .maxSize⟩ => ∃ s : State, s.Settled k ∧ s.levels.size = k.maxSize
  | ⟨_, .stopped _⟩ => True

theorem Halted.Ended.explored {size : Nat} {h : Halted} (hended : h.Ended k size)
    (hmax : size ≤ k.maxSize) (hsettled : size = 1 ∨ ∃ s : State, s.Settled k ∧ size = s.present) :
    h.Explored k := by
  obtain ⟨s, e | reason⟩ := h
  · obtain ⟨hsound, hsolves, rfl⟩ := hended
    exact ⟨hsound, hsolves, hmax, hsettled⟩
  · cases reason with
    | maxSize => exact absurd rfl hended
    | timeBudget => trivial
    | candidateLimit => trivial

theorem search_explored (ht : k.machine.table.Indexed) (hcosts : k.machine.table.Costed)
    (hternary : k.machine.table.Ternary) (hmax : 1 ≤ k.maxSize) : (search k).Explored k := by
  have hall : Post (fun s => s.Settled k ∧ s.levels.size = k.maxSize) (Halted.Explored k)
      (firstLevel k .start >>= levelsFrom k (k.maxSize - 1) 2) := by
    refine Post.bind (Post.imp (firstLevel_post ht) (fun _ h => h) ?_) ?_
    · exact fun h hended => hended.explored hmax (.inl rfl)
    · rintro s ⟨hs, hsize⟩
      have hlevels := levelsFrom_post ht hcosts hternary (k.maxSize - 1) hs
      rw [State.present, hsize] at hlevels
      refine Post.imp hlevels ?_ ?_
      · rintro s' ⟨hs', hsize'⟩
        exact ⟨hs', by omega⟩
      · rintro h ⟨s₀, hs₀, hlow, hhigh, hended⟩
        have hpresent : s₀.present ≤ k.maxSize := by
          rw [State.present]
          omega
        exact hended.explored hpresent (.inr ⟨s₀, hs₀, rfl⟩)
  rw [search]
  split
  · rename_i halted heq
    rwa [heq] at hall
  · rename_i s heq
    rw [heq] at hall
    exact ⟨s, hall⟩

/-! ## Runs -/

/-- The search that an enumeration makes. -/
def Bounds.task (b : Bounds) (m : Machine) (examples : List Example) (signature : Signature) :
    Task :=
  ⟨m, examples, signature, b.intConstants, b.maxSize, b.maxCandidates, b.clock⟩

theorem run_eq_ok {m : Machine} {b : Bounds} {examples : List Example} {out : Outcome} :
    run m b examples = .ok out ↔
      ∃ signature, Problem.signature examples = .ok signature ∧ m.table.size ≠ 0 ∧ b.maxSize ≠ 0 ∧
        (search (b.task m examples signature)).outcome = out := by
  rw [run]
  cases Problem.signature examples with
  | error f => simp [Error.lift, bind, Except.bind]
  | ok signature =>
    simp only [Error.lift, bind, Except.bind]
    by_cases htable : m.table.size = 0
    · simp [htable]
    · by_cases hmax : b.maxSize = 0
      · simp [htable, hmax]
      · simp [htable, hmax, Bounds.task, pure, Except.pure]

end Exemplar.Enumeration
