import Exemplar.Proofs.Enumeration.Levels

/-!
# What a search keeps

**What the terminals have, and an application has if its arguments do, the program has that a search
finds** (`search_inherits`). Such a property need not be one of outputs or of types; it may speak of how
the program is built.

`Adds s T r` is the counterpart of `Advances` for this: the step `r` from `s` keeps no program besides
those of `s` and terms of `T`. A level adds nothing but applications of finished programs that belong on
it (`level_adds`).
-/

namespace Exemplar.Enumeration

variable {k : Task} {s : State}

/-! ## Steps -/

/-- A step keeps what was kept and terms of `T` only, and finds no other terms. -/
def Adds (s : State) (T : Term → Prop) : Step → Prop :=
  Post (fun s' => ∀ e ∈ s'.kept, e ∈ s.kept ∨ T e.term)
    (fun h => ∀ e, h.ending = .found e → T e.term)

namespace Adds

variable {T U : Term → Prop}

theorem refl (s : State) : Adds s T (.ok s) := fun _ he => .inl he

theorem mono {r : Step} (h : Adds s T r) (hTU : ∀ e, T e → U e) : Adds s U r :=
  Post.imp h (fun _ hkept e he => (hkept e he).imp_right (hTU _))
    (fun _ hfound e he => hTU _ (hfound e he))

theorem bind {r : Step} {f : State → Step} (h : Adds s T r) (hf : ∀ s', Adds s' T (f s')) :
    Adds s T (r >>= f) := by
  refine Post.bind h fun s' hkept => Post.imp (hf s') ?_ fun _ hfound => hfound
  intro s'' hkept' e he
  rcases hkept' e he with he | he
  · exact hkept e he
  · exact .inr he

theorem foldlM {α : Type} (f : State → α → Step) (xs : List α)
    (hf : ∀ x ∈ xs, ∀ s', Adds s' T (f s' x)) (s : State) : Adds s T (xs.foldlM f s) := by
  induction xs generalizing s with
  | nil => exact .refl s
  | cons x xs ih =>
    rw [List.foldlM_cons]
    exact (hf x List.mem_cons_self s).bind fun s' =>
      ih (fun y hy => hf y (List.mem_cons_of_mem _ hy)) s'

end Adds

theorem checkClock_adds (T : Term → Prop) (s : State) : Adds s T (checkClock k s) := by
  rw [checkClock]
  split
  · simp [Adds, Post]
  · exact fun _ he => .inl he

theorem count_adds (T : Term → Prop) (s : State) : Adds s T (count k s) := by
  rw [count]
  split
  · simp [Adds, Post]
  · dsimp only
    split
    · exact checkClock_adds T _
    · exact fun _ he => .inl he

theorem offer_adds (e : Entry) (s : State) : Adds s (· = e.term) (offer k e s) := by
  refine (count_adds _ s).bind fun s' => ?_
  split
  · exact fun _ he => .inl he
  · split
    · intro e' he'
      rw [← Ending.found.inj he']
    · intro e' he'
      rcases State.mem_kept.mp he' with hmem | hmem
      · exact .inl (State.mem_kept.mpr (.inl hmem))
      · rcases Array.mem_push.mp hmem with hmem | rfl
        · exact .inl (State.mem_kept.mpr (.inr hmem))
        · exact .inr rfl

theorem discard_adds (T : Term → Prop) (s : State) : Adds s T (discard k s) :=
  (count_adds T s).bind fun _ _ he => .inl he

theorem considerTerminal_adds (l : Terminal) (s : State) :
    Adds s (· = l.term) (considerTerminal k s l) := by
  rw [considerTerminal]
  split
  · exact offer_adds _ s
  · exact discard_adds _ s

theorem considerApplication_adds (size : Nat) (p : Primitive) (args : List Entry) (s : State) :
    Adds s (· = .apply p.id (args.map Entry.term)) (considerApplication k size p args s) := by
  rw [considerApplication]
  split
  · exact offer_adds _ s
  · exact discard_adds _ s

theorem forTuples_adds (visit : List Entry → State → Step) (pools : List (List Entry))
    (chosen : List Entry) {T : Term → Prop}
    (hvisit : ∀ args, List.Forall₂ (· ∈ ·) args pools →
      ∀ s', Adds s' T (visit (chosen.reverse ++ args) s')) (s : State) :
    Adds s T (forTuples visit pools chosen s) := by
  induction pools generalizing chosen s with
  | nil =>
    have hlast := hvisit [] .nil s
    rwa [List.append_nil] at hlast
  | cons pool pools ih =>
    refine Adds.foldlM _ pool (fun a ha s' => ih (a :: chosen) (fun args hargs s'' => ?_) s') s
    rw [List.reverse_cons, List.append_assoc]
    exact hvisit (a :: args) (.cons ha hargs) s''

theorem composeSplit_adds (hs : s.Valid k) {p : Primitive} {split : List Nat}
    (hsplit : split ∈ compositions p.arity split.sum) (size : Nat) (s' : State) :
    Adds s' (s.Applied p split) (composeSplit k s.levels size p s' split) := by
  obtain ⟨hlength, hpos, -⟩ := mem_compositions.mp hsplit
  rw [composeSplit]
  split
  · exact .refl s'
  · refine forTuples_adds _ _ [] (fun args hargs s'' => ?_) s'
    obtain ⟨hfinished, htys, hsizes⟩ := (mem_pools hs.leveled hlength hpos args).mp hargs
    refine (considerApplication_adds size p args s'').mono fun e he => ?_
    exact ⟨args, hfinished, htys, hsizes, he⟩

theorem compose_adds (hs : s.Valid k) {p : Primitive} (hcost : 1 ≤ p.cost) (size : Nat)
    (s' : State) :
    Adds s' (fun e => ∃ sizes, p.cost + sizes.sum = size ∧ s.Applied p sizes e)
      (compose k s.levels size s' p) := by
  rw [compose, Nat.max_eq_left hcost]
  split
  · exact .refl s'
  · refine Adds.foldlM _ _ (fun split hsplit s'' => ?_) s'
    obtain ⟨-, -, hsum⟩ := mem_compositions.mp hsplit
    refine (composeSplit_adds hs (hsum.symm ▸ hsplit) size s'').mono fun e he => ?_
    exact ⟨split, by omega, he⟩

theorem level_adds (hs : s.Valid k) (hcosts : k.machine.table.Costed) (size : Nat) :
    Adds s (fun e => ∃ p ∈ k.machine.table.toList, ∃ sizes, p.cost + sizes.sum = size ∧
      s.Applied p sizes e) (level k size s) := by
  refine (Adds.foldlM _ _ (fun p hp s' => ?_) s).bind fun s' => ?_
  · exact (compose_adds hs (hcosts p hp) size s').mono fun e he => ⟨p, hp, he⟩
  · have hclock := checkClock_adds (k := k) (fun e => ∃ p ∈ k.machine.table.toList, ∃ sizes,
      p.cost + sizes.sum = size ∧ s.Applied p sizes e) (s'.finishLevel size)
    rwa [Adds, State.kept_finishLevel] at hclock

theorem firstLevel_adds :
    Adds .start (fun e => ∃ l ∈ Terminal.all k.machine.table k.signature.params k.intConstants,
      e = l.term) (firstLevel k .start) := by
  refine (Adds.foldlM _ _ (fun l hl s' => ?_) _).bind fun s' e he => ?_
  · exact (considerTerminal_adds l s').mono fun e he => ⟨l, hl, he⟩
  · rw [State.kept_finishLevel] at he
    exact .inl he

/-! ## The whole search -/

/-- A property of programs that terminals have, and that an application has if its arguments do. Only
programs that weigh at least two are applied. -/
structure Inherited (k : Task) (P : Entry → Prop) : Prop where
  terminal : ∀ l ∈ Terminal.all k.machine.table k.signature.params k.intConstants,
    ∀ e : Entry, e.Sound k → e.term = l.term → P e
  application : ∀ p ∈ k.machine.table.toList, ∀ args : List Entry, (∀ a ∈ args, P a) →
    2 ≤ p.cost + (args.map Entry.size).sum →
    ∀ e : Entry, e.Sound k → e.term = .apply p.id (args.map Entry.term) → P e

theorem Post.and {P P' : State → Prop} {Q Q' : Halted → Prop} {r : Step} (h : Post P Q r)
    (h' : Post P' Q' r) : Post (fun s => P s ∧ P' s) (fun h => Q h ∧ Q' h) r := by
  cases r with
  | error halted => exact ⟨h, h'⟩
  | ok s => exact ⟨h, h'⟩

/-- A search that ends finds a program with a property, or none. -/
def Halted.Finds (P : Entry → Prop) (h : Halted) : Prop := ∀ e, h.ending = .found e → P e

theorem Halted.Ended.sound {size : Nat} {h : Halted} (hended : h.Ended k size) :
    h.Finds (Entry.Sound k) := by
  obtain ⟨s, ending⟩ := h
  rintro e rfl
  exact hended.1

section inherited

variable {P : Entry → Prop} (hP : Inherited k P) (ht : k.machine.table.Indexed)
  (hcosts : k.machine.table.Costed) (hternary : k.machine.table.Ternary)
include hP ht

theorem firstLevel_inherits :
    Post (fun s => (s.Settled k ∧ s.levels.size = 1) ∧ ∀ e ∈ s.kept, P e) (Halted.Finds P)
      (firstLevel k .start) := by
  refine Post.imp ((firstLevel_post ht).and firstLevel_adds) ?_ ?_
  · rintro s ⟨hs, hadds⟩
    refine ⟨hs, fun e he => ?_⟩
    rcases hadds e he with hstart | ⟨l, hl, hterm⟩
    · simp [State.start, State.kept, State.finished] at hstart
    · exact hP.terminal l hl e (hs.1.valid.of_kept he).1 hterm
  · rintro h ⟨hended, hadds⟩ e he
    obtain ⟨l, hl, hterm⟩ := hadds e he
    exact hP.terminal l hl e (hended.sound e he) hterm

include hcosts hternary

theorem level_inherits (hs : s.Settled k) (hkept : ∀ e ∈ s.kept, P e) :
    Post (fun s' => (s'.Settled k ∧ s'.levels.size = s.levels.size + 1) ∧ ∀ e ∈ s'.kept, P e)
      (Halted.Finds P) (level k s.present s) := by
  have happlied : ∀ e : Entry, e.Sound k → (∃ p ∈ k.machine.table.toList, ∃ sizes,
      p.cost + sizes.sum = s.present ∧ s.Applied p sizes e.term) → P e := by
    rintro e hsound ⟨p, hp, _, hsum, args, hfinished, -, rfl, hterm⟩
    have hreached := hs.reached
    refine hP.application p hp args (fun a ha => ?_) ?_ e hsound hterm
    · exact hkept a (State.mem_kept.mpr (.inl (hfinished a ha)))
    · rw [hsum, State.present]
      omega
  -- that a new program is sound is known of the state after the level, where it is kept
  refine Post.imp ((level_post ht hcosts hternary hs).and (level_adds hs.valid hcosts s.present)) ?_ ?_
  · rintro s' ⟨hs', hadds⟩
    refine ⟨hs', fun e he => ?_⟩
    rcases hadds e he with hmem | hnew
    · exact hkept e hmem
    · exact happlied e (hs'.1.valid.of_kept he).1 hnew
  · rintro h ⟨hended, hadds⟩ e he
    exact happlied e (hended.sound e he) (hadds e he)

theorem levelsFrom_inherits (number : Nat) (hs : s.Settled k) (hkept : ∀ e ∈ s.kept, P e) :
    Post (fun _ => True) (Halted.Finds P) (levelsFrom k number s.present s) := by
  induction number generalizing s with
  | zero => trivial
  | succ number ih =>
    refine Post.bind (level_inherits hP ht hcosts hternary hs hkept) ?_
    rintro s' ⟨⟨hs', hsize⟩, hkept'⟩
    have hnext := ih hs' hkept'
    rwa [State.present, hsize] at hnext

/-- **A program that is found has every property that is inherited.** -/
theorem search_inherits : (search k).Finds P := by
  have hall : Post (fun _ => True) (Halted.Finds P)
      (firstLevel k .start >>= levelsFrom k (k.maxSize - 1) 2) := by
    refine Post.bind (firstLevel_inherits hP ht) ?_
    rintro s ⟨⟨hs, hsize⟩, hkept⟩
    have hlevels := levelsFrom_inherits hP ht hcosts hternary (k.maxSize - 1) hs hkept
    rwa [State.present, hsize] at hlevels
  rw [search]
  split
  · rename_i halted heq
    rwa [heq] at hall
  · rintro e ⟨⟩

end inherited

end Exemplar.Enumeration
