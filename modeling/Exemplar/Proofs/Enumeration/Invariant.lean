import Exemplar.Enumeration.Search
import Exemplar.Proofs.Eval

/-!
# What a search keeps true

* A program kept is `Sound`: its type, size and outputs are those of its term.
* A state is `Valid`: the programs kept are sound and stand on the level of their size, every vector
  of outputs that counts as seen belongs to one of them, and none of them solves the problem.
* `s.Represents k e n`: whatever outputs the term `e` has, a program kept of size at most `n` has them
  too.
* `Advances k s T r`: the step `r` from `s` leads to a valid state that keeps all programs of `s` and
  represents all terms of `T`, or it ends the search with a sound solution of the present size or with
  a used-up budget. It passes through binds and folds (`Advances.bind`, `Advances.foldlM`).
-/

namespace Exemplar

/-- A term has these values on the examples, in their order. -/
def Machine.Yields (m : Machine) (examples : List Example) (e : Term) (outputs : List Value) :
    Prop :=
  List.Forall₂ (fun ex v => m.eval e ex.inputs = .ok v) examples outputs

theorem Machine.Yields.unique {m : Machine} {examples : List Example} {e : Term}
    {outputs outputs' : List Value} (h : m.Yields examples e outputs)
    (h' : m.Yields examples e outputs') : outputs = outputs' :=
  List.right_unique_forall₂' (fun _ _ _ hv hw => Except.ok.inj (hv.symm.trans hw)) h h'

theorem Machine.exists_yields {m : Machine} {examples : List Example} {e : Term}
    (h : ∀ ex ∈ examples, ∃ v, m.eval e ex.inputs = .ok v) :
    ∃ outputs, m.Yields examples e outputs := by
  induction examples with
  | nil => exact ⟨[], .nil⟩
  | cons ex exs ih =>
    obtain ⟨⟨v, hv⟩, hrest⟩ := List.forall_mem_cons.mp h
    obtain ⟨vs, hvs⟩ := ih hrest
    exact ⟨v :: vs, .cons hv hvs⟩

namespace Enumeration

variable {k : Task}

/-! ## Programs -/

/-- Type, size and outputs of a program are those of its term. -/
structure Entry.Sound (k : Task) (e : Entry) : Prop where
  typed : e.term.infer k.machine.table k.signature.params = .ok e.ty
  sized : e.term.size k.machine.table = e.size
  yields : k.machine.Yields k.examples e.term e.outputs

/-- The program is what the search looks for. -/
def Entry.Solves (k : Task) (e : Entry) : Prop := e.ty = k.signature.ret ∧ e.outputs = k.target

theorem yields_target_iff {e : Term} :
    k.machine.Yields k.examples e k.target ↔
      ∀ ex ∈ k.examples, k.machine.eval e ex.inputs = .ok ex.output := by
  rw [Machine.Yields, Task.target, List.forall₂_map_right_iff, List.forall₂_same]

/-! ## States -/

namespace State

/-- The programs kept on finished levels. -/
def finished (s : State) : List Entry := s.levels.toList.flatten

def kept (s : State) : List Entry := s.finished ++ s.fresh.toList

/-- The size of the programs on the present level. -/
def present (s : State) : Nat := s.levels.size + 1

theorem mem_finished {s : State} {e : Entry} :
    e ∈ s.finished ↔ ∃ (n : Nat) (level : List Entry), s.levels[n]? = some level ∧ e ∈ level := by
  rw [finished, List.mem_flatten]
  constructor
  · rintro ⟨level, hlevel, he⟩
    obtain ⟨n, hn⟩ := Array.mem_iff_getElem?.mp (Array.mem_toList_iff.mp hlevel)
    exact ⟨n, level, hn, he⟩
  · rintro ⟨n, level, hn, he⟩
    exact ⟨level, Array.mem_toList_iff.mpr (Array.mem_of_getElem? hn), he⟩

theorem mem_kept {s : State} {e : Entry} : e ∈ s.kept ↔ e ∈ s.finished ∨ e ∈ s.fresh := by
  simp only [kept, List.mem_append, Array.mem_toList_iff]

/-- The programs of finished levels stand on the level of their size. -/
def Leveled (s : State) : Prop :=
  ∀ (n : Nat) (level : List Entry), s.levels[n]? = some level → ∀ e ∈ level, e.size = n + 1

theorem Leveled.level_of_finished {s : State} (hs : s.Leveled) {e : Entry} (he : e ∈ s.finished) :
    1 ≤ e.size ∧ ∃ level, s.levels[e.size - 1]? = some level ∧ e ∈ level := by
  obtain ⟨n, level, hn, hmem⟩ := mem_finished.mp he
  have hsize := hs n level hn e hmem
  refine ⟨by omega, level, ?_, hmem⟩
  rw [hsize, Nat.add_sub_cancel, hn]

/-- The invariant of a search that goes on. -/
structure Valid (k : Task) (s : State) : Prop where
  finished : ∀ (n : Nat) (level : List Entry), s.levels[n]? = some level →
    ∀ e ∈ level, e.Sound k ∧ e.size = n + 1
  fresh : ∀ e ∈ s.fresh, e.Sound k ∧ e.size = s.present
  seen : ∀ outputs, s.seen.contains outputs = true → ∃ e ∈ s.kept, e.outputs = outputs
  unsolved : ∀ e ∈ s.kept, ¬ e.Solves k

namespace Valid

variable {s : State}

theorem leveled (hs : s.Valid k) : s.Leveled := fun n level hlevel e he =>
  (hs.finished n level hlevel e he).2

theorem level_of_finished (hs : s.Valid k) {e : Entry} (he : e ∈ s.finished) :
    e.Sound k ∧ 1 ≤ e.size ∧ e.size ≤ s.levels.size ∧
      ∃ level, s.levels[e.size - 1]? = some level ∧ e ∈ level := by
  obtain ⟨n, level, hn, hmem⟩ := mem_finished.mp he
  obtain ⟨hsound, hsize⟩ := hs.finished n level hn e hmem
  obtain ⟨hlt, -⟩ := Array.getElem?_eq_some_iff.mp hn
  refine ⟨hsound, by omega, by omega, level, ?_, hmem⟩
  rw [hsize, Nat.add_sub_cancel, hn]

theorem of_kept (hs : s.Valid k) {e : Entry} (he : e ∈ s.kept) :
    e.Sound k ∧ e.size ≤ s.present := by
  rcases mem_kept.mp he with he | he
  · obtain ⟨hsound, -, hsize, -⟩ := hs.level_of_finished he
    exact ⟨hsound, Nat.le_succ_of_le hsize⟩
  · obtain ⟨hsound, hsize⟩ := hs.fresh e he
    exact ⟨hsound, Nat.le_of_eq hsize⟩

theorem counted (hs : s.Valid k) (stats : Stats) (readings : Nat) :
    Valid k { s with stats := stats, readings := readings } :=
  ⟨hs.finished, hs.fresh, hs.seen, hs.unsolved⟩

theorem push (hs : s.Valid k) {e : Entry} (he : e.Sound k) (hsize : e.size = s.present)
    (hnot : ¬ e.Solves k) (stats : Stats) :
    Valid k { s with
      seen := s.seen.insert e.outputs
      fresh := s.fresh.push e
      stats := stats } := by
  refine ⟨hs.finished, ?_, ?_, ?_⟩
  · intro e' he'
    rcases Array.mem_push.mp he' with he' | rfl
    · exact hs.fresh e' he'
    · exact ⟨he, hsize⟩
  · intro outputs houtputs
    rw [Std.HashSet.contains_insert, Bool.or_eq_true, beq_iff_eq] at houtputs
    rcases houtputs with rfl | houtputs
    · exact ⟨e, mem_kept.mpr (.inr Array.mem_push_self), rfl⟩
    · obtain ⟨e', he', rfl⟩ := hs.seen outputs houtputs
      rcases mem_kept.mp he' with he' | he'
      · exact ⟨e', mem_kept.mpr (.inl he'), rfl⟩
      · exact ⟨e', mem_kept.mpr (.inr (Array.mem_push_of_mem _ he')), rfl⟩
  · intro e' he'
    rcases mem_kept.mp he' with he' | he'
    · exact hs.unsolved e' (mem_kept.mpr (.inl he'))
    · rcases Array.mem_push.mp he' with he' | rfl
      · exact hs.unsolved e' (mem_kept.mpr (.inr he'))
      · exact hnot

end Valid

/-- A later state on the same level. -/
structure Extends (s s' : State) : Prop where
  levels : s'.levels = s.levels
  fresh : ∀ e ∈ s.fresh, e ∈ s'.fresh

namespace Extends

variable {s s' s'' : State}

theorem refl (s : State) : s.Extends s := ⟨rfl, fun _ he => he⟩

theorem counted (s : State) (stats : Stats) (readings : Nat) :
    s.Extends { s with stats := stats, readings := readings } :=
  ⟨rfl, fun _ he => he⟩

theorem trans (h : s.Extends s') (h' : s'.Extends s'') : s.Extends s'' :=
  ⟨h'.levels.trans h.levels, fun e he => h'.fresh e (h.fresh e he)⟩

theorem finished_eq (h : s.Extends s') : s'.finished = s.finished := by
  rw [finished, finished, h.levels]

theorem present_eq (h : s.Extends s') : s'.present = s.present := by
  rw [present, present, h.levels]

theorem kept_subset (h : s.Extends s') {e : Entry} (he : e ∈ s.kept) : e ∈ s'.kept := by
  rcases mem_kept.mp he with he | he
  · exact mem_kept.mpr (.inl (h.finished_eq ▸ he))
  · exact mem_kept.mpr (.inr (h.fresh e he))

end Extends

/-- Whatever outputs a term has, a program kept of at most a size has them too. -/
def Represents (k : Task) (s : State) (e : Term) (size : Nat) : Prop :=
  ∀ outputs, k.machine.Yields k.examples e outputs →
    ∃ r ∈ s.kept, r.outputs = outputs ∧ r.size ≤ size

theorem Represents.extends {s s' : State} {e : Term} {n : Nat} (h : s.Represents k e n)
    (hext : s.Extends s') : s'.Represents k e n := by
  intro outputs hyields
  obtain ⟨r, hr, houtputs, hsize⟩ := h outputs hyields
  exact ⟨r, hext.kept_subset hr, houtputs, hsize⟩

end State

/-! ## Steps -/

/-- The search has ended on the level of a size, with a solution of that size or with a budget used
up. -/
def Halted.Ended (k : Task) (size : Nat) : Halted → Prop
  | ⟨_, .found e⟩ => e.Sound k ∧ e.Solves k ∧ e.size = size
  | ⟨_, .stopped reason⟩ => reason ≠ .maxSize

/-- Properties of the state that a step leads to, or of the end that it comes to. -/
def Post (P : State → Prop) (Q : Halted → Prop) : Step → Prop
  | .ok s => P s
  | .error h => Q h

theorem Post.bind {P P' : State → Prop} {Q : Halted → Prop} {r : Step} {f : State → Step}
    (h : Post P Q r) (hf : ∀ s, P s → Post P' Q (f s)) : Post P' Q (r >>= f) := by
  cases r with
  | error halted => exact h
  | ok s => exact hf s h

theorem Post.imp {P P' : State → Prop} {Q Q' : Halted → Prop} {r : Step} (h : Post P Q r)
    (hP : ∀ s, P s → P' s) (hQ : ∀ h, Q h → Q' h) : Post P' Q' r := by
  cases r with
  | error halted => exact hQ halted h
  | ok s => exact hP s h

theorem Post.foldlM {P : State → Prop} {Q : Halted → Prop} {α : Type} {f : State → α → Step}
    {xs : List α} (hf : ∀ x ∈ xs, ∀ s, P s → Post P Q (f s x)) {s : State} (hs : P s) :
    Post P Q (xs.foldlM f s) := by
  induction xs generalizing s with
  | nil => exact hs
  | cons x xs ih =>
    rw [List.foldlM_cons]
    exact (hf x List.mem_cons_self s hs).bind fun s' hs' =>
      ih (fun y hy => hf y (List.mem_cons_of_mem x hy)) hs'

/-- A step on the present level of `s` leads to a valid state that keeps all programs of `s` and
represents the terms of `T`, or it ends the search on this level. -/
def Advances (k : Task) (s : State) (T : Term → Prop) : Step → Prop :=
  Post (fun s' => s'.Valid k ∧ s.Extends s' ∧ ∀ e, T e → s'.Represents k e s.present)
    (Halted.Ended k s.present)

namespace Advances

variable {s : State} {T U : Term → Prop}

theorem mono {r : Step} (h : Advances k s T r) (hTU : ∀ e, U e → T e) : Advances k s U r :=
  Post.imp h (fun _ ⟨hvalid, hext, hrep⟩ => ⟨hvalid, hext, fun e he => hrep e (hTU e he)⟩)
    (fun _ hended => hended)

theorem of_extends {s' : State} {r : Step} (hext : s.Extends s') (h : Advances k s' T r) :
    Advances k s T r := by
  rw [Advances, hext.present_eq] at h
  exact Post.imp h (fun _ ⟨hvalid, hext', hrep⟩ => ⟨hvalid, hext.trans hext', hrep⟩)
    (fun _ hended => hended)

theorem bind {r : Step} {f : State → Step} (h : Advances k s T r)
    (hf : ∀ s', s'.Valid k → s.Extends s' → Advances k s' U (f s')) :
    Advances k s (fun e => T e ∨ U e) (r >>= f) := by
  refine Post.bind h fun s' ⟨hvalid, hext, hrep⟩ => ?_
  have hnext := hf s' hvalid hext
  rw [Advances, hext.present_eq] at hnext
  refine Post.imp hnext ?_ (fun _ hended => hended)
  rintro s'' ⟨hvalid', hext', hrep'⟩
  refine ⟨hvalid', hext.trans hext', ?_⟩
  rintro e (he | he)
  · exact (hrep e he).extends hext'
  · exact hrep' e he

theorem foldlM {α : Type} (hs : s.Valid k) (f : State → α → Step) (xs : List α)
    {T : α → Term → Prop}
    (hf : ∀ x ∈ xs, ∀ s', s'.Valid k → s.Extends s' → Advances k s' (T x) (f s' x)) :
    Advances k s (fun e => ∃ x ∈ xs, T x e) (xs.foldlM f s) := by
  induction xs generalizing s with
  | nil => exact ⟨hs, .refl s, by simp⟩
  | cons x xs ih =>
    rw [List.foldlM_cons]
    have hhead := hf x List.mem_cons_self s hs (.refl s)
    refine (hhead.bind fun s' hvalid hext => ih hvalid fun y hy s'' hvalid' hext' =>
      hf y (List.mem_cons_of_mem _ hy) s'' hvalid' (hext.trans hext')).mono ?_
    rintro e ⟨y, hy, he⟩
    rcases List.mem_cons.mp hy with rfl | hy
    · exact .inl he
    · exact .inr ⟨y, hy, he⟩

end Advances

end Enumeration

end Exemplar
