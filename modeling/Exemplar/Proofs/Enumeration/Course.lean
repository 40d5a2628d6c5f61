import Exemplar.Proofs.Enumeration.Levels

/-!
# The course of a search

A search goes from level to level: `through k n` is the search through the sizes up to `n`, and the search
ends as it does through all sizes (`search_eq`). It ends inside a level or at its end: some number of
levels was finished, and the next one is where it ended (`exists_of_through_eq_error`). The level itself consists of
candidates that are offered or discarded, nothing else (`build_post`).
-/

namespace Exemplar.Enumeration

variable {k : Task} {s : State}

/-! ## Levels -/

/-- Builds all candidates of the level after those that are done. -/
def build (k : Task) : (done : Nat) → State → Step
  | 0, s => (Terminal.all k.machine.table k.signature.params k.intConstants).foldlM
    (considerTerminal k) s
  | done + 1, s => k.machine.table.toList.foldlM (compose k s.levels (done + 2)) s

/-- Finishes the level after those that are done. -/
def close (k : Task) : (done : Nat) → State → Step
  | 0, s => .ok (s.finishLevel 1)
  | done + 1, s => checkClock k (s.finishLevel (done + 2))

/-- The search through a number of levels. -/
def through (k : Task) : Nat → Step
  | 0 => .ok .start
  | done + 1 => do close k done (← build k done (← through k done))

theorem through_add (done number : Nat) :
    through k (done + 1 + number) = through k (done + 1) >>= levelsFrom k number (done + 2) := by
  induction number generalizing done with
  | zero => exact (bind_pure (through k (done + 1))).symm
  | succ number ih =>
    -- the next level is taken off the front of the rest and put at the end of what is done
    have hnext : through k (done + 2) = through k (done + 1) >>= level k (done + 2) := rfl
    have hlevels : levelsFrom k (number + 1) (done + 2) =
        fun s => level k (done + 2) s >>= levelsFrom k number (done + 3) := rfl
    rw [hlevels, ← bind_assoc, ← hnext, ← ih (done + 1)]
    congr 1
    omega

theorem close_eq_ok {done : Nat} {s' : State} (h : close k done s = .ok s') :
    ∃ readings, s' = { s.finishLevel (done + 1) with readings := readings } := by
  cases done with
  | zero => exact ⟨_, (Except.ok.inj h).symm⟩
  | succ done =>
    rw [close, checkClock] at h
    split at h
    · cases h
    · exact ⟨_, (Except.ok.inj h).symm⟩

theorem close_eq_error {done : Nat} {h : Halted} (heq : close k done s = .error h) :
    ∃ readings, h = ⟨{ s.finishLevel (done + 1) with readings := readings }, .stopped .timeBudget⟩ := by
  cases done with
  | zero => cases heq
  | succ done =>
    rw [close, checkClock] at heq
    split at heq
    · exact ⟨_, (Except.error.inj heq).symm⟩
    · cases heq

theorem through_succ_eq_ok {done : Nat} (h : through k (done + 1) = .ok s) :
    ∃ s₀ s₁, through k done = .ok s₀ ∧ build k done s₀ = .ok s₁ ∧ close k done s₁ = .ok s := by
  obtain ⟨s₀, hs₀, hlevel⟩ := bind_eq_ok.mp h
  obtain ⟨s₁, hs₁, hclosed⟩ := bind_eq_ok.mp hlevel
  exact ⟨s₀, s₁, hs₀, hs₁, hclosed⟩

theorem through_induction {P : Nat → State → Prop} (hstart : P 0 .start)
    (hbuild : ∀ done s, P done s → ∀ s', build k done s = .ok s' → P done s')
    (hclose : ∀ done s, P done s → ∀ readings,
      P (done + 1) { s.finishLevel (done + 1) with readings := readings })
    {done : Nat} (hthrough : through k done = .ok s) : P done s := by
  induction done generalizing s with
  | zero => exact Except.ok.inj hthrough ▸ hstart
  | succ done ih =>
    obtain ⟨s₀, s₁, hs₀, hs₁, hclosed⟩ := through_succ_eq_ok hthrough
    obtain ⟨readings, rfl⟩ := close_eq_ok hclosed
    exact hclose done s₁ (hbuild done s₀ (ih hs₀) s₁ hs₁) readings

/-- How a search through all sizes ends. -/
@[simp]
def conclude : Step → Halted
  | .error halted => halted
  | .ok s => ⟨s, .stopped .maxSize⟩

theorem search_eq (hmax : 1 ≤ k.maxSize) : search k = conclude (through k k.maxSize) := by
  obtain ⟨number, hnumber⟩ := Nat.exists_eq_add_of_le hmax
  have hthrough : through k k.maxSize = firstLevel k .start >>= levelsFrom k (k.maxSize - 1) 2 := by
    rw [hnumber, Nat.add_sub_cancel_left]
    exact through_add 0 number
  rw [hthrough]
  unfold search
  generalize firstLevel k .start >>= levelsFrom k (k.maxSize - 1) 2 = r
  cases r <;> rfl

/-- **Where a search ends**: some levels were finished, and it ends among the candidates of the next one
or when that one is finished. -/
theorem exists_of_through_eq_error {n : Nat} {h : Halted} (heq : through k n = .error h) :
    ∃ done < n, ∃ s, through k done = .ok s ∧ (build k done s >>= close k done) = .error h := by
  induction n with
  | zero => cases heq
  | succ n ih =>
    cases hthrough : through k n with
    | error halted =>
      have hsame : through k (n + 1) = .error halted := by
        rw [through, hthrough]
        rfl
      obtain rfl : halted = h := Except.error.inj (hsame.symm.trans heq)
      obtain ⟨done, hdone, hends⟩ := ih hthrough
      exact ⟨done, Nat.lt_succ_of_lt hdone, hends⟩
    | ok s =>
      rw [through, hthrough] at heq
      exact ⟨n, Nat.lt_succ_self n, s, hthrough, heq⟩

theorem through_settled (ht : k.machine.table.Indexed) (hcosts : k.machine.table.Costed)
    (hternary : k.machine.table.Ternary) {done : Nat} (hthrough : through k (done + 1) = .ok s) : s.Settled k ∧ s.levels.size = done + 1 := by
  induction done generalizing s with
  | zero =>
    have hfirst := firstLevel_post (k := k) ht
    have heq : firstLevel k .start = .ok s := hthrough
    rwa [heq] at hfirst
  | succ done ih =>
    obtain ⟨s₀, hs₀, hlevel⟩ := bind_eq_ok.mp hthrough
    obtain ⟨hsettled, hsize⟩ := ih hs₀
    have hnext := level_post ht hcosts hternary hsettled
    have heq : level k s₀.present s₀ = .ok s := by
      rw [State.present, hsize]
      exact hlevel
    rwa [heq, hsize] at hnext

/-! ## Candidates -/

section post

variable {P : State → Prop} {Q : Halted → Prop}

theorem forTuples_post {visit : List Entry → State → Step}
    (hvisit : ∀ args s, P s → Post P Q (visit args s)) (pools : List (List Entry))
    (chosen : List Entry) (hs : P s) : Post P Q (forTuples visit pools chosen s) := by
  induction pools generalizing chosen s with
  | nil => exact hvisit chosen.reverse s hs
  | cons pool pools ih =>
    exact Post.foldlM (fun a _ s' hs' => ih (a :: chosen) hs') hs

theorem build_post {done : Nat}
    (hoffer : ∀ e s, e.size = done + 1 → P s → Post P Q (offer k e s))
    (hdiscard : ∀ s, P s → Post P Q (discard k s)) (hs : P s) : Post P Q (build k done s) := by
  cases done with
  | zero =>
    refine Post.foldlM (fun l _ s' hs' => ?_) hs
    unfold considerTerminal
    split
    · exact hoffer _ s' rfl hs'
    · exact hdiscard s' hs'
  | succ done =>
    have happlication : ∀ (p : Primitive) (args : List Entry) (s : State), P s →
        Post P Q (considerApplication k (done + 2) p args s) := by
      intro p args s hs
      unfold considerApplication
      split
      · exact hoffer _ s rfl hs
      · exact hdiscard s hs
    have hsplit : ∀ (levels : Array (List Entry)) (p : Primitive) (s : State) (split : List Nat),
        P s → Post P Q (composeSplit k levels (done + 2) p s split) := by
      intro levels p s sizes hs
      rw [composeSplit]
      split
      · exact hs
      · exact forTuples_post (happlication p) _ [] hs
    refine Post.foldlM (fun p _ s' hs' => ?_) hs
    rw [compose]
    split
    · exact hs'
    · exact Post.foldlM (fun sizes _ s'' hs'' => hsplit _ p s'' sizes hs'') hs'

end post

/-! ## Ends -/

/-- The search has ended on the level of a size: with a program of that size, or with a budget used up
before all levels were built. -/
def Halted.EndsAt (size : Nat) : Halted → Prop
  | ⟨_, .found e⟩ => e.size = size
  | ⟨_, .stopped reason⟩ => reason ≠ .maxSize

theorem checkClock_endsAt (size : Nat) (s : State) :
    Post (fun _ => True) (Halted.EndsAt size) (checkClock k s) := by
  rw [checkClock]
  split
  · simp [Post, Halted.EndsAt]
  · trivial

theorem count_endsAt (size : Nat) (s : State) :
    Post (fun _ => True) (Halted.EndsAt size) (count k s) := by
  rw [count]
  split
  · simp [Post, Halted.EndsAt]
  · dsimp only
    split
    · exact checkClock_endsAt size _
    · trivial

theorem build_endsAt (done : Nat) (s : State) :
    Post (fun _ => True) (Halted.EndsAt (done + 1)) (build k done s) := by
  refine build_post (fun e s hsize _ => ?_) (fun s _ => ?_) trivial
  · refine (count_endsAt _ s).bind fun s' _ => ?_
    split
    · trivial
    · split
      · exact hsize
      · trivial
  · exact (count_endsAt _ s).bind fun s' _ => trivial

theorem endsAt_of_level {done : Nat} {h : Halted}
    (hends : (build k done s >>= close k done) = .error h) : h.EndsAt (done + 1) := by
  have hlevel : Post (fun _ => True) (Halted.EndsAt (done + 1))
      (build k done s >>= close k done) := by
    refine (build_endsAt done s).bind fun s' _ => ?_
    cases done with
    | zero => trivial
    | succ done => exact checkClock_endsAt _ _
  rwa [hends] at hlevel

theorem exists_of_through_eq_found {n : Nat} {e : Entry} (heq : through k n = .error ⟨s, .found e⟩) :
    ∃ done < n, e.size = done + 1 ∧ ∃ s₀, through k done = .ok s₀ ∧
      build k done s₀ = .error ⟨s, .found e⟩ := by
  obtain ⟨done, hdone, s₀, hs₀, hends⟩ := exists_of_through_eq_error heq
  have hsize : e.size = done + 1 := endsAt_of_level hends
  refine ⟨done, hdone, hsize, s₀, hs₀, ?_⟩
  cases hbuild : build k done s₀ with
  | error halted =>
    rw [hbuild] at hends
    exact hends
  | ok s₁ =>
    -- a level that is finished only ends the search by the clock
    rw [hbuild] at hends
    obtain ⟨_, hclock⟩ := close_eq_error hends
    cases hclock

theorem through_eq_error_of_le {n n' : Nat} {h : Halted} (heq : through k n = .error h)
    (hle : n ≤ n') : through k n' = .error h := by
  induction n', hle using Nat.le_induction with
  | base => exact heq
  | succ n' _ ih =>
    rw [through, ih]
    rfl

theorem exists_of_through_eq_ok {n n' : Nat} (h : through k n' = .ok s) (hle : n ≤ n') :
    ∃ s₀, through k n = .ok s₀ := by
  cases hn : through k n with
  | ok s₀ => exact ⟨s₀, rfl⟩
  | error halted =>
    rw [through_eq_error_of_le hn hle] at h
    cases h

theorem exists_build_of_lt {done n : Nat} (h : through k n = .ok s) (hlt : done < n) :
    ∃ s₀ s₁, through k done = .ok s₀ ∧ build k done s₀ = .ok s₁ := by
  obtain ⟨s', hs'⟩ := exists_of_through_eq_ok h hlt
  obtain ⟨s₀, s₁, hs₀, hs₁, -⟩ := through_succ_eq_ok hs'
  exact ⟨s₀, s₁, hs₀, hs₁⟩

theorem search_eq_found (hmax : 1 ≤ k.maxSize) {e : Entry} :
    search k = ⟨s, .found e⟩ ↔ through k k.maxSize = .error ⟨s, .found e⟩ := by
  rw [search_eq hmax]
  cases through k k.maxSize <;> simp

theorem search_eq_finished (hmax : 1 ≤ k.maxSize) :
    search k = ⟨s, .stopped .maxSize⟩ ↔ through k k.maxSize = .ok s := by
  rw [search_eq hmax]
  cases hthrough : through k k.maxSize with
  | ok s' => simp
  | error h =>
    obtain ⟨done, -, _, -, hends⟩ := exists_of_through_eq_error hthrough
    have hreason := endsAt_of_level hends
    constructor
    · intro heq
      obtain rfl : h = ⟨s, .stopped .maxSize⟩ := heq
      exact absurd rfl hreason
    · intro heq
      cases heq

end Exemplar.Enumeration
