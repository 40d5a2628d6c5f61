import Exemplar.Proofs.Enumeration.Balance
import Mathlib.Data.List.Nodup

/-!
# Which candidates a level builds

**A level builds every application that belongs on it once, in a fixed order** (`run_levels_exact`): by the
place of the primitive in the table, then by the sizes of the arguments, then by the order in which the
arguments were kept, the last two lexicographically. This holds for every table, and whatever becomes of
the candidates.

The loops of a level, over primitives, compositions and pools, are one loop over a list of candidates
(`foldlM_compose`). That the list is the right one is a matter of this list alone (`mem_candidates`,
`candidates_sorted`). The pools do not change while the level is built, since what is kept meanwhile is of
the level's own size (`State.Grows`), and the arguments of a candidate are smaller.
-/

namespace Exemplar.Enumeration

variable {k : Task} {s s' : State} {t : Table} {bank : List Entry} {size : Nat}

/-! ## Loops -/

theorem foldlM_flatMap {α β : Type} {f : α → List β} {g : State → β → Step} {xs : List α} {s : State} :
    (xs.flatMap f).foldlM g s = xs.foldlM (fun s x => (f x).foldlM g s) s := by
  induction xs generalizing s with
  | nil => rfl
  | cons x xs ih =>
    rw [List.flatMap_cons, List.foldlM_append, List.foldlM_cons]
    exact bind_congr fun s' => ih

/-- One member of each pool, in lexicographic order. -/
def tuples : List (List Entry) → List (List Entry)
  | [] => [[]]
  | pool :: pools => pool.flatMap fun e => (tuples pools).map (e :: ·)

theorem mem_tuples {pools : List (List Entry)} {args : List Entry} :
    args ∈ tuples pools ↔ List.Forall₂ (· ∈ ·) args pools := by
  induction pools generalizing args with
  | nil => simp [tuples]
  | cons pool pools ih =>
    rw [tuples, List.mem_flatMap, List.forall₂_cons_right_iff]
    constructor
    · rintro ⟨e, he, hargs⟩
      obtain ⟨rest, hrest, rfl⟩ := List.mem_map.mp hargs
      exact ⟨e, rest, he, ih.mp hrest, rfl⟩
    · rintro ⟨e, rest, he, hrest, rfl⟩
      exact ⟨e, he, List.mem_map_of_mem (ih.mpr hrest)⟩

theorem tuples_sorted {R : Entry → Entry → Prop} {pools : List (List Entry)}
    (h : ∀ pool ∈ pools, pool.Pairwise R) : (tuples pools).Pairwise (List.Lex R) := by
  induction pools with
  | nil => exact List.pairwise_singleton _ _
  | cons pool pools ih =>
    obtain ⟨hpool, hpools⟩ := List.forall_mem_cons.mp h
    rw [tuples, List.pairwise_flatMap]
    refine ⟨fun e _ => ?_, hpool.imp fun {d e} hde => ?_⟩
    · exact List.pairwise_map.mpr ((ih hpools).imp .cons)
    · intro args hargs args' hargs'
      obtain ⟨rest, -, rfl⟩ := List.mem_map.mp hargs
      obtain ⟨rest', -, rfl⟩ := List.mem_map.mp hargs'
      exact .rel hde

theorem tuples_eq_nil {pools : List (List Entry)} (h : pools.any List.isEmpty = true) :
    tuples pools = [] := by
  refine List.eq_nil_iff_forall_not_mem.mpr fun args hargs => ?_
  rw [pools_inhabited (mem_tuples.mp hargs)] at h
  cases h

theorem forTuples_eq (visit : List Entry → State → Step) (pools : List (List Entry))
    (chosen : List Entry) (s : State) : forTuples visit pools chosen s =
      (tuples pools).foldlM (fun s args => visit (chosen.reverse ++ args) s) s := by
  induction pools generalizing chosen s with
  | nil => simp [forTuples, tuples]
  | cons pool pools ih =>
    rw [forTuples, tuples, foldlM_flatMap]
    congr 1
    funext s e
    rw [ih, List.foldlM_map]
    simp

/-! ## Candidates -/

/-- An application that a level builds. -/
structure Candidate where
  /-- The place of the primitive in the table. -/
  place : Nat
  primitive : Primitive
  args : List Entry

namespace Candidate

def sizes (c : Candidate) : List Nat := c.args.map Entry.size

/-- A candidate belongs on the level of a size: its arguments are programs kept, of the types of the
parameters, and the sizes add up. A primitive weighs at least one. -/
structure Fits (t : Table) (bank : List Entry) (size : Nat) (c : Candidate) : Prop where
  listed : t.toList[c.place]? = some c.primitive
  kept : ∀ a ∈ c.args, a ∈ bank
  types : c.args.map Entry.ty = c.primitive.signature.params
  total : max c.primitive.cost 1 + c.sizes.sum = size

/-- The order of candidates: by the place of the primitive, then by the sizes of the arguments, then by the
order in which the arguments were kept. -/
def Before (bank : List Entry) (c d : Candidate) : Prop :=
  c.place < d.place ∨ c.place = d.place ∧
    (List.Lex (· < ·) c.sizes d.sizes ∨ c.sizes = d.sizes ∧
      List.Lex (fun a b => bank.idxOf a < bank.idxOf b) c.args d.args)

/-- Takes in or drops a candidate. -/
def consider (k : Task) (size : Nat) (s : State) (c : Candidate) : Step :=
  considerApplication k size c.primitive c.args s

end Candidate

/-- What a primitive is applied to on the level of a size. -/
def arguments (levels : Array (List Entry)) (size : Nat) (p : Primitive) : List (List Entry) :=
  if size < max p.cost 1 then []
  else (compositions p.arity (size - max p.cost 1)).flatMap fun split =>
    tuples (List.zipWith (pool levels) p.signature.params split)

/-- The candidates of the level of a size. -/
def candidates (t : Table) (levels : Array (List Entry)) (size : Nat) : List Candidate :=
  t.toList.zipIdx.flatMap fun p => (arguments levels size p.1).map (Candidate.mk p.2 p.1)

theorem compose_eq (levels : Array (List Entry)) (size : Nat) (s : State) (p : Primitive) :
    compose k levels size s p = (arguments levels size p).foldlM
      (fun s args => considerApplication k size p args s) s := by
  rw [compose, arguments]
  split
  · rfl
  · rw [foldlM_flatMap]
    congr 1
    funext s split
    rw [composeSplit]
    split
    · rename_i hempty
      rw [tuples_eq_nil hempty]
      rfl
    · exact forTuples_eq _ _ [] s

theorem foldlM_compose (levels : Array (List Entry)) (size : Nat) (s : State) :
    k.machine.table.toList.foldlM (compose k levels size) s =
      (candidates k.machine.table levels size).foldlM (Candidate.consider k size) s := by
  rw [candidates, foldlM_flatMap]
  have hplaces : k.machine.table.toList = k.machine.table.toList.zipIdx.map Prod.fst :=
    (List.zipIdx_map_fst 0 _).symm
  rw [hplaces, List.foldlM_map, ← hplaces]
  congr 1
  funext s p
  rw [compose_eq, List.foldlM_map]
  rfl

theorem mem_arguments (hs : s.Leveled) {p : Primitive} {args : List Entry} :
    args ∈ arguments s.levels size p ↔ (∀ a ∈ args, a ∈ s.finished) ∧
      args.map Entry.ty = p.signature.params ∧
        max p.cost 1 + (args.map Entry.size).sum = size := by
  rw [arguments]
  constructor
  · intro hargs
    split at hargs
    · cases hargs
    · obtain ⟨split, hsplit, hargs⟩ := List.mem_flatMap.mp hargs
      obtain ⟨hlength, hpos, hsum⟩ := mem_compositions.mp hsplit
      obtain ⟨hfinished, htypes, rfl⟩ := (mem_pools hs hlength hpos args).mp (mem_tuples.mp hargs)
      exact ⟨hfinished, htypes, by omega⟩
  · rintro ⟨hfinished, htypes, htotal⟩
    have hlength : (args.map Entry.size).length = p.signature.params.length := by
      rw [← htypes, List.length_map, List.length_map]
    have hpos : ∀ n ∈ args.map Entry.size, 1 ≤ n := by
      intro n hn
      obtain ⟨a, ha, rfl⟩ := List.mem_map.mp hn
      exact (hs.level_of_finished (hfinished a ha)).1
    rw [if_neg (by omega)]
    refine List.mem_flatMap.mpr ⟨args.map Entry.size, ?_, ?_⟩
    · exact mem_compositions.mpr ⟨hlength, hpos, by omega⟩
    · exact mem_tuples.mpr ((mem_pools hs hlength hpos args).mpr ⟨hfinished, htypes, rfl⟩)

theorem mem_candidates (hs : s.Leveled) {c : Candidate} :
    c ∈ candidates t s.levels size ↔ c.Fits t s.finished size := by
  rw [candidates, List.mem_flatMap]
  constructor
  · rintro ⟨⟨p, i⟩, hlisted, hc⟩
    obtain ⟨args, hargs, rfl⟩ := List.mem_map.mp hc
    obtain ⟨hfinished, htypes, htotal⟩ := (mem_arguments hs).mp hargs
    exact ⟨List.mem_zipIdx_iff_getElem?.mp hlisted, hfinished, htypes, htotal⟩
  · intro hc
    refine ⟨(c.primitive, c.place), List.mem_zipIdx_iff_getElem?.mpr hc.listed, ?_⟩
    exact List.mem_map.mpr ⟨c.args, (mem_arguments hs).mpr ⟨hc.kept, hc.types, hc.total⟩, rfl⟩

/-! ## Order -/

theorem pairwise_idxOf (h : bank.Nodup) : bank.Pairwise fun a b => bank.idxOf a < bank.idxOf b := by
  rw [List.pairwise_iff_getElem]
  intro i j hi hj hij
  rwa [h.idxOf_getElem, h.idxOf_getElem]

theorem pool_sorted (hnodup : bank.Nodup) (hbank : s.finished.Sublist bank) (ty : Ty) (n : Nat) :
    (pool s.levels ty n).Pairwise fun a b => bank.idxOf a < bank.idxOf b := by
  refine (pairwise_idxOf hnodup).sublist (List.Sublist.trans ?_ hbank)
  rw [pool]
  refine List.filter_sublist.trans ?_
  cases hlevel : s.levels[n - 1]? with
  | none => exact List.nil_sublist _
  | some level =>
    exact List.sublist_flatten_of_mem (Array.mem_toList_iff.mpr (Array.mem_of_getElem? hlevel))

theorem arguments_sorted (hs : s.Leveled) (hnodup : bank.Nodup) (hbank : s.finished.Sublist bank)
    (p : Primitive) : (arguments s.levels size p).Pairwise fun as bs =>
      List.Lex (· < ·) (as.map Entry.size) (bs.map Entry.size) ∨
        as.map Entry.size = bs.map Entry.size ∧
          List.Lex (fun a b => bank.idxOf a < bank.idxOf b) as bs := by
  rw [arguments]
  split
  · exact .nil
  have hsizes : ∀ split ∈ compositions p.arity (size - max p.cost 1),
      ∀ args ∈ tuples (List.zipWith (pool s.levels) p.signature.params split),
        args.map Entry.size = split := by
    intro split hsplit args hargs
    obtain ⟨hlength, hpos, -⟩ := mem_compositions.mp hsplit
    exact ((mem_pools hs hlength hpos args).mp (mem_tuples.mp hargs)).2.2
  rw [List.pairwise_flatMap]
  refine ⟨fun split hsplit => ?_, (compositions_sorted _ _).imp_of_mem ?_⟩
  · have hpools : ∀ q ∈ List.zipWith (pool s.levels) p.signature.params split,
        q.Pairwise fun a b => bank.idxOf a < bank.idxOf b := by
      intro q hq
      rw [← List.map_uncurry_zip_eq_zipWith] at hq
      obtain ⟨⟨ty, n⟩, -, rfl⟩ := List.mem_map.mp hq
      exact pool_sorted hnodup hbank ty n
    refine (tuples_sorted hpools).imp_of_mem fun {as bs} has hbs hlex => .inr ⟨?_, hlex⟩
    rw [hsizes split hsplit as has, hsizes split hsplit bs hbs]
  · intro split split' hsplit hsplit' hlt as has bs hbs
    rw [hsizes split hsplit as has, hsizes split' hsplit' bs hbs]
    exact .inl hlt

theorem candidates_sorted (hs : s.Leveled) (hnodup : bank.Nodup) (hbank : s.finished.Sublist bank) :
    (candidates t s.levels size).Pairwise (Candidate.Before bank) := by
  rw [candidates, List.pairwise_flatMap]
  refine ⟨fun p _ => ?_, ?_⟩
  · rw [List.pairwise_map]
    exact (arguments_sorted hs hnodup hbank p.1).imp fun h => .inr ⟨rfl, h⟩
  · have hplaces : t.toList.zipIdx.Pairwise fun p q => p.2 < q.2 := by
      rw [← List.pairwise_map (f := Prod.snd) (R := (· < ·)), List.zipIdx_map_snd]
      exact List.pairwise_lt_range'
    refine hplaces.imp fun {p q} hlt c hc d hd => ?_
    obtain ⟨-, -, rfl⟩ := List.mem_map.mp hc
    obtain ⟨-, -, rfl⟩ := List.mem_map.mp hd
    exact .inl hlt

/-! ## What candidates change -/

/-- A later state of the level of a size, `count` candidates on: programs of this size have been kept
behind the others. -/
structure State.Grows (size count : Nat) (s s' : State) : Prop where
  levels : s'.levels = s.levels
  kept : s.kept <+: s'.kept
  fresh : ∀ e ∈ s'.fresh, e ∈ s.fresh ∨ e.size = size
  counted : s'.stats.candidates = s.stats.candidates + count

namespace State.Grows

variable {s'' : State} {m n : Nat}

theorem of_counters (size : Nat) (s : State) {stats : Stats} (readings : Nat)
    (h : stats.candidates = s.stats.candidates + n) :
    s.Grows size n { s with stats := stats, readings := readings } :=
  ⟨rfl, List.prefix_refl _, fun _ he => .inl he, h⟩

theorem trans (h : s.Grows size m s') (h' : s'.Grows size n s'') : s.Grows size (m + n) s'' where
  levels := h'.levels.trans h.levels
  kept := h.kept.trans h'.kept
  fresh e he := (h'.fresh e he).elim (h.fresh e) .inr
  counted := by rw [h'.counted, h.counted, Nat.add_assoc]

theorem finished_eq (h : s.Grows size n s') : s'.finished = s.finished := by
  rw [finished, finished, h.levels]

end State.Grows

theorem count_grows (size : Nat) (s : State) : Post (s.Grows size 1) (fun _ => True) (count k s) := by
  rw [count]
  split
  · trivial
  · dsimp only
    split
    · rw [checkClock]
      split
      · trivial
      · exact .of_counters size s _ rfl
    · exact .of_counters size s _ rfl

theorem offer_grows {e : Entry} (hsize : e.size = size) (s : State) :
    Post (s.Grows size 1) (fun _ => True) (offer k e s) := by
  refine (count_grows size s).bind fun s' hs' => ?_
  split
  · have hpruned : s'.Grows size 0 { s' with stats.pruned := s'.stats.pruned + 1 } :=
      .of_counters size s' _ rfl
    exact hs'.trans hpruned
  · split
    · trivial
    · have hpushed : s'.Grows size 0 { s' with
          seen := s'.seen.insert e.outputs
          fresh := s'.fresh.push e
          stats.retained := s'.stats.retained + 1 } := by
        refine ⟨rfl, ⟨[e], by simp [State.kept, State.finished]⟩, fun e' he' => ?_, rfl⟩
        rcases Array.mem_push.mp he' with he' | rfl
        · exact .inl he'
        · exact .inr hsize
      exact hs'.trans hpushed

theorem discard_grows (size : Nat) (s : State) :
    Post (s.Grows size 1) (fun _ => True) (discard k s) := by
  refine (count_grows size s).bind fun s' hs' => ?_
  have hdiscarded : s'.Grows size 0 { s' with stats.discarded := s'.stats.discarded + 1 } :=
    .of_counters size s' _ rfl
  exact hs'.trans hdiscarded

theorem consider_grows (c : Candidate) (s : State) :
    Post (s.Grows size 1) (fun _ => True) (c.consider k size s) := by
  rw [Candidate.consider, considerApplication]
  split
  · exact offer_grows rfl s
  · exact discard_grows size s

theorem foldlM_consider_grows (size : Nat) (cs : List Candidate) (s : State) :
    Post (s.Grows size cs.length) (fun _ => True) (cs.foldlM (Candidate.consider k size) s) := by
  induction cs generalizing s with
  | nil => exact .of_counters size s _ rfl
  | cons c cs ih =>
    rw [List.foldlM_cons, List.length_cons, Nat.add_comm]
    exact (consider_grows c s).bind fun s' hs' => (ih s').imp (fun _ hs'' => hs'.trans hs'') fun _ h => h

/-! ## Where programs are kept -/

/-- Between two levels, or while the next one is built, programs stand on the levels of their sizes. -/
structure State.Arranged (done : Nat) (s : State) : Prop where
  leveled : s.Leveled
  size : s.levels.size = done
  fresh : ∀ e ∈ s.fresh, e.size = done + 1

theorem State.Arranged.grows {done n : Nat} (hs : s.Arranged done) (h : s.Grows (done + 1) n s') :
    s'.Arranged done where
  leveled := by
    rw [Leveled, h.levels]
    exact hs.leveled
  size := by rw [h.levels, hs.size]
  fresh e he := (h.fresh e he).elim (hs.fresh e) id

theorem State.Arranged.finishLevel {done : Nat} (hs : s.Arranged done) (size : Nat) :
    (s.finishLevel size).Arranged (done + 1) := by
  refine ⟨fun n level hlevel e he => ?_, ?_, fun e he => absurd he (Array.not_mem_empty e)⟩
  · have hget := Array.getElem?_push.symm.trans hlevel
    split at hget
    · rename_i hn
      obtain rfl := Option.some.inj hget
      rw [hs.fresh e (Array.mem_toList_iff.mp he), hn, hs.size]
    · exact hs.leveled n level hget e he
  · rw [size_finishLevel, present, hs.size]

theorem build_arranged {done : Nat} (hs : s.Arranged done) :
    Post (State.Arranged done) (fun _ => True) (build k done s) := by
  refine build_post (fun e s' hsize hs' => ?_) (fun s' hs' => ?_) hs
  · exact (offer_grows hsize s').imp (fun _ h => hs'.grows h) fun _ h => h
  · exact (discard_grows _ s').imp (fun _ h => hs'.grows h) fun _ h => h

theorem through_arranged {done : Nat} (hthrough : through k done = .ok s) : s.Arranged done := by
  refine through_induction (P := State.Arranged) ?_ ?_ ?_ hthrough
  · have hnone : State.start.Leveled := fun n level hlevel => by simp [State.start] at hlevel
    exact ⟨hnone, rfl, fun e he => absurd he (Array.not_mem_empty e)⟩
  · intro done s hs s' hbuild
    have hbuilt := build_arranged (k := k) hs
    rwa [hbuild] at hbuilt
  · intro done s hs readings
    have hfinished := hs.finishLevel (done + 1)
    exact ⟨hfinished.leveled, hfinished.size, hfinished.fresh⟩

/-! ## Levels that were built -/

theorem exists_build_of_levels (hmax : 1 ≤ k.maxSize) {done : Nat}
    (hlevels : done + 1 ≤ (search k).state.stats.levels) :
    ∃ s₀ s₁, through k done = .ok s₀ ∧ build k done s₀ = .ok s₁ := by
  rw [search_eq hmax] at hlevels
  cases hthrough : through k k.maxSize with
  | ok s =>
    rw [hthrough] at hlevels
    have hreached : done < k.maxSize := (through_balanced hthrough).levels ▸ hlevels
    exact exists_build_of_lt hthrough hreached
  | error h =>
    rw [hthrough] at hlevels
    change done + 1 ≤ h.state.stats.levels at hlevels
    obtain ⟨last, -, s, hs, hends⟩ := exists_of_through_eq_error hthrough
    cases hbuild : build k last s with
    | error halted =>
      -- the search ended inside a level, which is not counted
      have hbuilt := build_balanced (through_balanced hs)
      have hsize := endsAt_of_level hends
      rw [hbuild] at hbuilt hends
      obtain rfl : halted = h := Except.error.inj hends
      obtain ⟨_, haccounted⟩ := hbuilt.accounted hs hbuild hsize
      exact exists_build_of_lt hs (haccounted.state.levels ▸ hlevels)
    | ok s' =>
      rw [hbuild] at hends
      obtain ⟨_, rfl⟩ := close_eq_error hends
      have hlast : done ≤ last := Nat.le_of_succ_le_succ hlevels
      rcases Nat.lt_or_eq_of_le hlast with hlt | rfl
      · exact exists_build_of_lt hs hlt
      · exact ⟨s, s', hs, hbuild⟩

/-- On the level of a size a search builds the candidates that fit, in their order. It starts from the state
`s` that the smaller sizes lead to, and leads to the state `s'`. -/
structure Task.Builds (k : Task) (size : Nat) (s s' : State) (cs : List Candidate) : Prop where
  reached : through k (size - 1) = .ok s
  considered : k.machine.table.toList.foldlM (compose k s.levels size) s =
    cs.foldlM (Candidate.consider k size) s
  built : cs.foldlM (Candidate.consider k size) s = .ok s'
  counted : s'.stats.candidates = s.stats.candidates + cs.length
  kept : s.kept <+: s'.kept
  distinct : s'.kept.Nodup
  fits : ∀ c, c ∈ cs ↔ c.Fits k.machine.table s'.kept size
  sorted : cs.Pairwise (Candidate.Before s'.kept)

theorem fits_kept_iff (hs : s'.Arranged (size - 1)) (hsize : 1 ≤ size) {c : Candidate} :
    c.Fits t s'.kept size ↔ c.Fits t s'.finished size := by
  refine ⟨fun hc => ⟨hc.listed, fun a ha => ?_, hc.types, hc.total⟩, fun hc =>
    ⟨hc.listed, fun a ha => State.mem_kept.mpr (.inl (hc.kept a ha)), hc.types, hc.total⟩⟩
  -- an argument is smaller than the application
  refine (State.mem_kept.mp (hc.kept a ha)).resolve_right fun hfresh => ?_
  have hpart : a.size ≤ c.sizes.sum := List.le_sum_of_mem (List.mem_map_of_mem ha)
  have htotal := hc.total
  have hown := hs.fresh a hfresh
  omega

theorem builds_of_build {done : Nat} (hs : through k (done + 1) = .ok s)
    (hbuild : build k (done + 1) s = .ok s') :
    k.Builds (done + 2) s s' (candidates k.machine.table s.levels (done + 2)) := by
  have harranged := through_arranged hs
  have hconsidered := foldlM_compose (k := k) s.levels (done + 2) s
  have hbuilt : (candidates k.machine.table s.levels (done + 2)).foldlM
      (Candidate.consider k (done + 2)) s = .ok s' := hconsidered.symm.trans hbuild
  have hgrows := foldlM_consider_grows (k := k) (done + 2)
    (candidates k.machine.table s.levels (done + 2)) s
  rw [hbuilt] at hgrows
  have hdistinct : s'.kept.Nodup := by
    have hbalanced := build_balanced (through_balanced hs)
    rw [hbuild] at hbalanced
    exact List.Nodup.of_map _ hbalanced.distinct
  have hbank : s.finished.Sublist s'.kept := by
    rw [← hgrows.finished_eq]
    exact List.sublist_append_left _ _
  refine ⟨hs, hconsidered, hbuilt, hgrows.counted, hgrows.kept, hdistinct, fun c => ?_,
    candidates_sorted harranged.leveled hdistinct hbank⟩
  rw [fits_kept_iff (harranged.grows hgrows) (by omega), hgrows.finished_eq]
  exact mem_candidates harranged.leveled

theorem levels_outcome (h : Halted) : h.outcome.stats.levels = h.state.stats.levels := by
  rw [Halted.outcome]
  split <;> rfl

/-- **On every level that a run has finished, it has built each application that belongs there once, and in
order.** The sizes of the arguments go through the compositions of what is left for them, which are all
there, in lexicographic order. -/
theorem run_levels_exact {m : Machine} {b : Bounds} {examples : List Example} {out : Outcome}
    (hrun : run m b examples = .ok out) {size : Nat} (hsize : 2 ≤ size)
    (hfinished : size ≤ out.stats.levels) :
    (∃ signature s s' cs, Problem.signature examples = .ok signature ∧
      (b.task m examples signature).Builds size s s' cs) ∧
    ∀ parts total, (compositions parts total).Pairwise (List.Lex (· < ·)) ∧
      ∀ split, split ∈ compositions parts total ↔
        split.length = parts ∧ (∀ n ∈ split, 1 ≤ n) ∧ split.sum = total := by
  refine ⟨?_, fun parts total => ⟨compositions_sorted parts total, fun _ => mem_compositions⟩⟩
  obtain ⟨signature, hsig, -, hmax, rfl⟩ := run_eq_ok.mp hrun
  obtain ⟨done, rfl⟩ := Nat.exists_eq_add_of_le' hsize
  rw [levels_outcome] at hfinished
  obtain ⟨s, s', hs, hbuild⟩ := exists_build_of_levels (Nat.one_le_iff_ne_zero.mpr hmax) hfinished
  exact ⟨signature, s, s', _, hsig, builds_of_build hs hbuild⟩

theorem run_signed :
    run ((Table.ofBuiltins [.neg, .add]).machine .standard) ⟨[], 3, 100, fun _ => false⟩
      [⟨[.int 1], .int 9⟩] = .ok ⟨none, ⟨3, 7, 6, 1, 0, some .maxSize⟩⟩ := by
  have hmachine : ((Table.ofBuiltins [.neg, .add]).machine .standard).table =
      Table.ofBuiltins [.neg, .add] := rfl
  have htable : (Table.ofBuiltins [.neg, .add]).toList =
      [.ofBuiltin 0 .neg, .ofBuiltin 1 .add] := rfl
  have hterminals : Terminal.all (Table.ofBuiltins [.neg, .add]) [.int] [] =
      [⟨.var 0, .int⟩, ⟨.lit (.bool true), .bool⟩, ⟨.lit (.bool false), .bool⟩,
        ⟨.lit (.list []), .list⟩] := rfl
  have hneg : ((Table.ofBuiltins [.neg, .add]).machine .standard).apply 0 [.int 1] =
      .ok (.int (-1)) := rfl
  have hback : ((Table.ofBuiltins [.neg, .add]).machine .standard).apply 0 [.int (-1)] =
      .ok (.int 1) := rfl
  have hadd : ((Table.ofBuiltins [.neg, .add]).machine .standard).apply 1 [.int 1, .int 1] =
      .ok (.int 2) := rfl
  refine run_eq_ok.mpr ⟨⟨[.int], .int⟩, rfl, by decide, by decide, ?_⟩
  -- the hash of a value does not reduce, so the search is run by rewriting
  simp [Bounds.task, search, Halted.outcome, firstLevel, levelsFrom, level, State.start,
    State.finishLevel, Stats.zero, hmachine, htable, hterminals, hneg, hback, hadd, considerTerminal,
    Machine.eval, Machine.evalAt, Machine.evalWith, offer, count, clockStride, checkClock,
    Task.target, compose, composeSplit, compositions, List.range, List.range.loop, pool, forTuples,
    considerApplication, applyRows, Primitive.ofBuiltin, Primitive.arity, Builtin.signature,
    Builtin.cost, Signature.arity, bind, Except.bind, pure, Except.pure, throw, throwThe,
    MonadExceptOf.throw]

/-- The last level has two candidates: the double negation, whose outputs were seen, and the sum. -/
theorem run_levels_exact_signed :
    let m := (Table.ofBuiltins [.neg, .add]).machine .standard
    let b : Bounds := ⟨[], 3, 100, fun _ => false⟩
    let examples : List Example := [⟨[.int 1], .int 9⟩]
    (run m b examples = .ok ⟨none, ⟨3, 7, 6, 1, 0, some .maxSize⟩⟩ ∧ 2 ≤ 3 ∧ 3 ≤ 3) ∧
    (∃ signature s s' cs, Problem.signature examples = .ok signature ∧
      (b.task m examples signature).Builds 3 s s' cs) ∧
    ∀ parts total, (compositions parts total).Pairwise (List.Lex (· < ·)) ∧
      ∀ split, split ∈ compositions parts total ↔
        split.length = parts ∧ (∀ n ∈ split, 1 ≤ n) ∧ split.sum = total :=
  ⟨⟨run_signed, by decide, by decide⟩, run_levels_exact run_signed (by decide) (by decide)⟩

end Exemplar.Enumeration
