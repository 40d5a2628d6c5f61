import Exemplar.Experience.Learner
import Mathlib.Data.List.Nodup
import Mathlib.Data.List.Perm.Basic

/-!
# Rankings

**A ranking has every strategy of the learner exactly once** (`rank_perm`), whether it explores or not.
Reports and rankings leave the row of strategies as it is.

Sorting permutes the standings. Exploration takes one of them out of its place and puts it first: the
standings have different indices, since these are the positions in the row (`nodup_index_standings`), and
so the one that is taken out is the only one that the filter drops (`promote_perm`).
-/

namespace Exemplar

theorem find?_key {α : Type} {key : α → String} {xs : List α} (hnodup : (xs.map key).Nodup) {a : α}
    (ha : a ∈ xs) : (xs.find? fun x => key x == key a) = some a := by
  obtain ⟨x, hx⟩ : ∃ x, (xs.find? fun x => key x == key a) = some x :=
    Option.isSome_iff_exists.mp (List.find?_isSome.mpr ⟨a, ha, beq_self_eq_true _⟩)
  have hkey : key x = key a := by simpa using List.find?_some hx
  rw [hx, List.inj_on_of_nodup_map hnodup (List.mem_of_find?_eq_some hx) ha hkey]

namespace Learner

variable {σ : Type} {l : Learner σ} {bucket : Bucket}

/-! ## Standings -/

theorem name_ofTrack (t : Track) (index : Nat) :
    (Standing.ofTrack bucket t index).name = t.strategy := by
  rw [Standing.ofTrack]
  split <;> rfl

theorem index_ofTrack (t : Track) (index : Nat) : (Standing.ofTrack bucket t index).index = index := by
  rw [Standing.ofTrack]
  split <;> rfl

theorem standings_perm (l : Learner σ) (bucket : Bucket) : (l.standings bucket).Perm
    (l.tracks.zipIdx.map fun t => Standing.ofTrack bucket t.1 t.2) := List.mergeSort_perm _ _

theorem name_standings_perm (l : Learner σ) (bucket : Bucket) :
    ((l.standings bucket).map Standing.name).Perm l.strategies := by
  have hnames : (l.tracks.zipIdx.map fun t => Standing.ofTrack bucket t.1 t.2).map Standing.name =
      l.strategies := by
    have hfirst : (l.tracks.zipIdx.map Prod.fst).map Track.strategy = l.strategies := by
      rw [List.zipIdx_map_fst, strategies]
    simpa only [List.map_map, Function.comp_def, name_ofTrack] using hfirst
  exact hnames ▸ (standings_perm l bucket).map Standing.name

theorem nodup_index_standings (l : Learner σ) (bucket : Bucket) :
    ((l.standings bucket).map Standing.index).Nodup := by
  have hindices : (l.tracks.zipIdx.map fun t => Standing.ofTrack bucket t.1 t.2).map Standing.index =
      List.range l.tracks.length := by
    simp only [List.map_map, Function.comp_def, index_ofTrack]
    rw [List.zipIdx_map_snd, List.range_eq_range']
  rw [((standings_perm l bucket).map Standing.index).nodup_iff, hindices]
  exact List.nodup_range

/-! ## Exploration -/

theorem lessTried_mem (a b : Standing) : lessTried a b = a ∨ lessTried a b = b := by
  rw [lessTried]
  split
  · exact .inr rfl
  · exact .inl rfl

theorem foldl_lessTried_mem (s : Standing) (rest : List Standing) :
    rest.foldl lessTried s ∈ s :: rest := by
  induction rest generalizing s with
  | nil => exact List.mem_cons_self
  | cons x rest ih =>
    rw [List.foldl_cons]
    rcases List.mem_cons.mp (ih (lessTried s x)) with h | h
    · rw [h]
      rcases lessTried_mem s x with h | h <;> simp [h]
    · simp [h]

theorem cons_filter_perm {s : Standing} {order : List Standing}
    (hnodup : (order.map Standing.index).Nodup) (hs : s ∈ order) :
    (s :: order.filter fun x => x.index ≠ s.index).Perm order := by
  induction order with
  | nil => cases hs
  | cons x rest ih =>
    rw [List.map_cons, List.nodup_cons] at hnodup
    obtain ⟨hx, hrest⟩ := hnodup
    rcases List.mem_cons.mp hs with rfl | hs
    · have hothers : ∀ y ∈ rest, y.index ≠ s.index :=
        fun y hy heq => hx (heq ▸ List.mem_map_of_mem hy)
      rw [List.filter_cons_of_neg (by simp), List.filter_eq_self.mpr (by simpa using hothers)]
    · have hne : x.index ≠ s.index := fun heq => hx (heq ▸ List.mem_map_of_mem hs)
      rw [List.filter_cons_of_pos (by simpa using hne)]
      exact (List.Perm.swap x s _).trans ((ih hrest hs).cons x)

theorem promote_perm {order : List Standing} (hnodup : (order.map Standing.index).Nodup) :
    (promote order).Perm order := by
  cases order with
  | nil => exact .refl _
  | cons s rest => exact cons_filter_perm hnodup (foldl_lessTried_mem s rest)

/-! ## Rankings -/

/-- **A ranking has every strategy exactly once.** -/
theorem rank_perm [RandomSource σ] (l : Learner σ) (bucket : Bucket) :
    (l.rank bucket).1.Perm l.strategies := by
  have horder := name_standings_perm l bucket
  have hpromoted := (promote_perm (nodup_index_standings l bucket)).map Standing.name
  show (List.map Standing.name (if (l.explores.run l.source).1 then promote (l.standings bucket)
    else l.standings bucket)).Perm l.strategies
  split
  · exact hpromoted.trans horder
  · exact horder

/-! ## Rankings without experience -/

/-- The standing of a strategy without any attempt. -/
def untried (t : Track × Nat) : Standing := ⟨t.2, t.1.strategy, 0.5, 1.0 / 0.0, 0⟩

theorem ofTrack_untried {t : Track} (ht : t.records = []) (index : Nat) :
    Standing.ofTrack bucket t index = untried (t, index) := by
  rw [Standing.ofTrack, Track.record?, ht]
  rfl

theorem order_untried {t u : Track × Nat} (h : t.2 < u.2) :
    (Standing.order (untried t) (untried u)).isLE = true := by
  have hscore : compareFloat 0.5 0.5 = .eq := by decide +kernel
  have hlatency : compareFloat (1.0 / 0.0) (1.0 / 0.0) = .eq := by decide +kernel
  have hindex : compare t.2 u.2 = .lt := Nat.compare_eq_lt.mpr h
  rw [Standing.order, untried, untried, hscore, hlatency, hindex]
  rfl

theorem promote_eq_self {order : List Standing}
    (h : order.Pairwise fun a b => a.attempts ≤ b.attempts ∧ a.index < b.index) :
    promote order = order := by
  cases order with
  | nil => rfl
  | cons s rest =>
    obtain ⟨hs, -⟩ := List.pairwise_cons.mp h
    have hleast : rest.foldl lessTried s = s := by
      clear h
      induction rest with
      | nil => rfl
      | cons x rest ih =>
        obtain ⟨hx, hrest⟩ := List.forall_mem_cons.mp hs
        have hkept : lessTried s x = s := by
          rw [lessTried, if_neg (by omega)]
        rw [List.foldl_cons, hkept, ih hrest]
    have hothers : ∀ x ∈ rest, x.index ≠ s.index := fun x hx => Nat.ne_of_gt (hs x hx).2
    rw [promote, hleast, List.filter_cons_of_neg (by simp),
      List.filter_eq_self.mpr (by simpa using hothers)]

theorem rank_untried [RandomSource σ] {l : Learner σ} (h : ∀ t ∈ l.tracks, t.records = [])
    (bucket : Bucket) : (l.rank bucket).1 = l.strategies := by
  have hrising : l.tracks.zipIdx.Pairwise fun t u => t.2 < u.2 := by
    have hindices : (l.tracks.zipIdx.map Prod.snd).Pairwise (· < ·) := by
      rw [List.zipIdx_map_snd]
      exact List.pairwise_lt_range'
    exact List.pairwise_map.mp hindices
  have hstandings : l.standings bucket = l.tracks.zipIdx.map untried := by
    have hmap : (l.tracks.zipIdx.map fun t => Standing.ofTrack bucket t.1 t.2) =
        l.tracks.zipIdx.map untried :=
      List.map_congr_left fun t ht =>
        ofTrack_untried (h t.1 (List.fst_mem_of_mem_zipIdx ht)) t.2
    rw [standings, hmap]
    exact List.mergeSort_of_pairwise (List.pairwise_map.mpr (hrising.imp order_untried))
  have hpromoted : promote (l.standings bucket) = l.standings bucket := by
    rw [hstandings]
    exact promote_eq_self (List.pairwise_map.mpr (hrising.imp fun h => ⟨Nat.le_refl 0, h⟩))
  have hnames : (l.standings bucket).map Standing.name = l.strategies := by
    have hfirst : l.strategies = (l.tracks.zipIdx.map Prod.fst).map Track.strategy := by
      rw [List.zipIdx_map_fst, strategies]
    rw [hstandings, hfirst, List.map_map, List.map_map]
    rfl
  show List.map Standing.name (if (l.explores.run l.source).1 then promote (l.standings bucket)
    else l.standings bucket) = l.strategies
  rw [hpromoted, ite_self, hnames]

/-! ## The row of strategies -/

theorem knows_iff {name : String} : l.knows name = true ↔ name ∈ l.strategies := by
  simp [knows]

theorem strategies_register {name : String} (hnew : name ∉ l.strategies) :
    (l.register name).strategies = l.strategies ++ [name] := by
  rw [register, if_neg (knows_iff.not.mpr hnew)]
  simp [strategies]

@[simp] theorem strategies_rank [RandomSource σ] (l : Learner σ) (bucket : Bucket) :
    (l.rank bucket).2.strategies = l.strategies := rfl

@[simp] theorem strategies_observe (l : Learner σ) (strategy : String) (bucket : Bucket)
    (success : Bool) (latency : Duration) :
    (l.observe strategy bucket success latency).strategies = l.strategies := by
  simp only [strategies, observe, List.map_map]
  refine List.map_congr_left fun t _ => ?_
  rw [Function.comp_apply]
  split <;> rfl

end Learner

end Exemplar
