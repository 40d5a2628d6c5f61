import Exemplar.Proofs.Experience.Bookkeeping

/-!
# Exploration

**A ranking is the preferred order of the strategies, or this order with the least tried one moved to the
front** (`rank_explores`). The preferred order on a bucket does not depend on what is reported on other
buckets (`preference_observe`).

Exploration picks a standing by its attempts and its index. What it means for the strategy is read off
the row: the index is the position of the strategy (`Standing.Places.index`), and two standings have one
index exactly if they have one name, so that what the filter drops is the strategy itself
(`map_name_promote`).
-/

namespace Exemplar.Learner

variable {σ : Type} {l : Learner σ} {bucket other : Bucket}

/-- How often a strategy was tried on a bucket. -/
def attemptsOn (l : Learner σ) (name : String) (bucket : Bucket) : Nat :=
  ((l.recordFor? name bucket).map Record.attempts).getD 0

/-- A strategy that no other one comes before, by the attempts on a bucket and then by the order of
registration. -/
def LeastTried (l : Learner σ) (bucket : Bucket) (name : String) : Prop :=
  name ∈ l.strategies ∧ ∀ s ∈ l.strategies, l.attemptsOn name bucket < l.attemptsOn s bucket ∨
    l.attemptsOn name bucket = l.attemptsOn s bucket ∧
      l.strategies.idxOf name ≤ l.strategies.idxOf s

/-! ## Standings of strategies -/

/-- A standing is that of the strategy with its name. -/
structure Standing.Places (l : Learner σ) (bucket : Bucket) (x : Standing) : Prop where
  mem : x.name ∈ l.strategies
  index : x.index = l.strategies.idxOf x.name
  attempts : x.attempts = l.attemptsOn x.name bucket

theorem attempts_ofTrack (t : Track) (index : Nat) :
    (Standing.ofTrack bucket t index).attempts = t.attemptsOn bucket := by
  rw [Standing.ofTrack, Track.attemptsOn]
  cases t.record? bucket <;> rfl

theorem attemptsOn_of_mem (hnodup : l.strategies.Nodup) {t : Track} (ht : t ∈ l.tracks) :
    l.attemptsOn t.strategy bucket = t.attemptsOn bucket := by
  rw [attemptsOn, recordFor?, find?_key hnodup ht]
  rfl

theorem places_of_mem_standings (hnodup : l.strategies.Nodup) {x : Standing}
    (hx : x ∈ l.standings bucket) : x.Places l bucket := by
  -- a standing is that of the track at its index
  obtain ⟨⟨t, i⟩, hti, rfl⟩ := List.mem_map.mp ((standings_perm l bucket).mem_iff.mp hx)
  obtain ⟨hi, rfl⟩ : ∃ h : i < l.tracks.length, t = l.tracks[i] := by
    obtain ⟨-, hi, ht⟩ := List.mem_zipIdx hti
    exact ⟨by simpa using hi, by simpa using ht⟩
  have hrow : i < l.strategies.length := by simpa [strategies] using hi
  have hname : (l.tracks[i]).strategy = l.strategies[i] := by simp [strategies]
  constructor
  case mem =>
    rw [name_ofTrack, hname]
    exact List.getElem_mem hrow
  case index => rw [index_ofTrack, name_ofTrack, hname, hnodup.idxOf_getElem]
  case attempts =>
    rw [attempts_ofTrack, name_ofTrack, attemptsOn_of_mem hnodup (List.getElem_mem hi)]

theorem index_eq_iff {x y : Standing} (hx : x.Places l bucket) (hy : y.Places l bucket) :
    x.index = y.index ↔ x.name = y.name := by
  rw [hx.index, hy.index]
  exact List.idxOf_inj hx.mem

/-! ## The least tried strategy -/

/-- One standing does not come after another by attempts and index. -/
def Standing.NotAfter (a b : Standing) : Prop :=
  a.attempts < b.attempts ∨ a.attempts = b.attempts ∧ a.index ≤ b.index

theorem Standing.NotAfter.refl (a : Standing) : a.NotAfter a := .inr ⟨rfl, Nat.le_refl _⟩

theorem Standing.NotAfter.trans {a b c : Standing} (hab : a.NotAfter b) (hbc : b.NotAfter c) :
    a.NotAfter c := by
  rw [NotAfter] at hab hbc ⊢
  omega

theorem lessTried_notAfter (a b : Standing) :
    (lessTried a b).NotAfter a ∧ (lessTried a b).NotAfter b := by
  rw [lessTried, Standing.NotAfter, Standing.NotAfter]
  split <;> omega

theorem foldl_lessTried_notAfter (s : Standing) (rest : List Standing) :
    ∀ x ∈ s :: rest, (rest.foldl lessTried s).NotAfter x := by
  induction rest generalizing s with
  | nil =>
    intro x hx
    exact List.mem_singleton.mp hx ▸ .refl _
  | cons y rest ih =>
    obtain ⟨hs, hy⟩ := lessTried_notAfter s y
    obtain ⟨hfirst, hrest⟩ := List.forall_mem_cons.mp (ih (lessTried s y))
    exact List.forall_mem_cons.mpr
      ⟨hfirst.trans hs, List.forall_mem_cons.mpr ⟨hfirst.trans hy, hrest⟩⟩

theorem map_name_promote {order : List Standing} (horder : order ≠ [])
    (hplaces : ∀ x ∈ order, x.Places l bucket) (hnodup : (order.map Standing.name).Nodup) :
    ∃ x ∈ order, (∀ y ∈ order, x.NotAfter y) ∧
      (promote order).map Standing.name = x.name :: (order.map Standing.name).erase x.name := by
  obtain ⟨s, rest, rfl⟩ := List.exists_cons_of_ne_nil horder
  have hleast := foldl_lessTried_mem s rest
  refine ⟨rest.foldl lessTried s, hleast, foldl_lessTried_notAfter s rest, ?_⟩
  -- the filter goes by indices and `erase` by names
  rw [promote, List.map_cons, hnodup.erase_eq_filter, List.filter_map]
  congr 2
  refine List.filter_congr fun y hy => ?_
  have hsame := index_eq_iff (hplaces y hy) (hplaces _ hleast)
  exact Bool.eq_iff_iff.mpr (by simp [hsame])

/-! ## Buckets beside the one of a report -/

theorem ofTrack_observe (hne : bucket ≠ other) (t : Track) (success : Bool) (latency : Float)
    (index : Nat) :
    Standing.ofTrack other (t.observe bucket success latency) index =
      Standing.ofTrack other t index := by
  rw [Standing.ofTrack, Standing.ofTrack, Track.record?_observe_of_ne hne]
  rfl

theorem preference_observe (hne : bucket ≠ other) (l : Learner σ) (name : String) (success : Bool)
    (latency : Duration) :
    (l.observe name bucket success latency).preference other = l.preference other := by
  rw [preference, preference, standings, standings, observe, List.zipIdx_map, List.map_map]
  congr 2
  refine List.map_congr_left fun t _ => ?_
  show Standing.ofTrack other (if t.1.strategy = name then _ else t.1) t.2 = _
  split
  · exact ofTrack_observe hne t.1 success latency.milliseconds t.2
  · rfl

/-! ## Rankings -/

theorem nodup_preference (hnodup : l.strategies.Nodup) (bucket : Bucket) :
    (l.preference bucket).Nodup := (name_standings_perm l bucket).nodup_iff.mpr hnodup

variable [RandomSource σ]

theorem standings_ne_nil_of_explores {source : σ} (h : (l.explores.run source).1 = true)
    (bucket : Bucket) : l.standings bucket ≠ [] := by
  have hmany : 1 < l.tracks.length := by
    by_contra hfew
    rw [explores, if_neg hfew] at h
    cases h
  have hlength := (standings_perm l bucket).length_eq
  rw [List.length_map, List.length_zipIdx] at hlength
  exact List.length_pos_iff.mp (by omega)

theorem rank_of_explores (hnodup : l.strategies.Nodup) (h : (l.explores.run l.source).1 = true)
    (bucket : Bucket) : ∃ s, l.LeastTried bucket s ∧
      (l.rank bucket).1 = s :: (l.preference bucket).erase s := by
  have hplaces : ∀ x ∈ l.standings bucket, x.Places l bucket :=
    fun _ => places_of_mem_standings hnodup
  obtain ⟨x, hx, hleast, hpromote⟩ := map_name_promote (standings_ne_nil_of_explores h bucket) hplaces
    (nodup_preference hnodup bucket)
  refine ⟨x.name, ⟨(hplaces x hx).mem, fun s hs => ?_⟩, ?_⟩
  · obtain ⟨y, hy, rfl⟩ := List.mem_map.mp ((name_standings_perm l bucket).mem_iff.mpr hs)
    have hxy := hleast y hy
    rwa [Standing.NotAfter, (hplaces x hx).attempts, (hplaces y hy).attempts, (hplaces x hx).index,
      (hplaces y hy).index] at hxy
  · rw [preference, ← hpromote]
    show List.map Standing.name (if (l.explores.run l.source).1 then _ else _) = _
    rw [if_pos h]

/-- **A ranking has every strategy exactly once, and exploration only moves the least tried one to the
front.** A ranking uses up random words and changes nothing else. Whatever is reported on one bucket, the
preferred order on every other bucket stays as it is. -/
theorem rank_explores (rate : Float) (limit : Nat) (source : σ) (calls : List Call) (f : Features) :
    let l := (empty rate limit source).after calls
    let order := l.preference f.bucket
    let ranked := (l.rank f.bucket).1
    (ranked.Perm l.strategies ∧ ranked.Nodup) ∧
    (if (l.explores.run l.source).1 then
      ∃ s, l.LeastTried f.bucket s ∧ ranked = s :: order.erase s
    else ranked = order) ∧
    (l.rank f.bucket).2 = { l with source := (l.rank f.bucket).2.source } ∧
    ∀ (g : Features) name success latency, g.bucket ≠ f.bucket →
      (l.perform (.record name g success latency)).preference f.bucket = order := by
  intro l order ranked
  have hnodup : l.strategies.Nodup := ((books_empty rate limit source).after calls).nodup
  have hperm : ranked.Perm l.strategies := rank_perm l f.bucket
  refine ⟨⟨hperm, hperm.nodup_iff.mpr hnodup⟩, ?_, rfl, fun g name success latency hne => ?_⟩
  · split
    · rename_i hexplores
      exact rank_of_explores hnodup hexplores f.bucket
    · rename_i hstays
      show List.map Standing.name (if (l.explores.run l.source).1 then _ else _) = _
      rw [if_neg hstays]
      rfl
  · rw [perform, record]
    by_cases hname : l.knows name = true
    · rw [if_pos hname]
      exact preference_observe hne l name success latency
    · rw [if_neg hname]

end Exemplar.Learner
