import Exemplar.Proofs.Experience.Ranking
import Mathlib.Algebra.GroupWithZero.Nat

/-!
# Totals of a learner

**A report of an attempt of a known strategy adds one to the attempts of a learner, and one to its
successes if the attempt was a success** (`attempts_observe`, `successes_observe`).

Both totals are sums over tracks of sums over records. A report changes one record of one track: the
record of its bucket, which is inserted if it is not there (`sum_observeIn`), in the track of its
strategy, which is the only one of this name (`sum_observe`).
-/

namespace Exemplar

theorem foldl_add {α : Type} (f : α → Nat) (xs : List α) :
    xs.foldl (fun n x => n + f x) 0 = (xs.map f).sum := by
  rw [List.sum_eq_foldl, List.foldl_map]

/-! ## One track -/

theorem Record.sum_observeIn {f : Record → Nat} {success : Bool} {latency : Float} {n : Nat}
    (hfresh : ∀ bucket, f (fresh bucket) = 0) (hstep : ∀ r, f (r.observe success latency) = f r + n)
    (bucket : Bucket) (rs : List Record) :
    ((observeIn bucket success latency rs).map f).sum = (rs.map f).sum + n := by
  have hnew : f ((fresh bucket).observe success latency) = n := by
    rw [hstep, hfresh, Nat.zero_add]
  induction rs with
  | nil => simp [observeIn, hnew]
  | cons r rs ih =>
    rw [observeIn]
    split
    · simp only [List.map_cons, List.sum_cons, hnew]
      omega
    · simp only [List.map_cons, List.sum_cons, hstep]
      omega
    · simp only [List.map_cons, List.sum_cons, ih]
      omega

namespace Track

theorem successes_observe (t : Track) (bucket : Bucket) (success : Bool) (latency : Float) :
    (t.observe bucket success latency).successes = t.successes + success.toNat := by
  rw [successes, successes, foldl_add, foldl_add]
  exact Record.sum_observeIn (fun _ => rfl) (fun r => by cases success <;> rfl) bucket t.records

theorem failures_observe (t : Track) (bucket : Bucket) (success : Bool) (latency : Float) :
    (t.observe bucket success latency).failures = t.failures + (!success).toNat := by
  rw [failures, failures, foldl_add, foldl_add]
  exact Record.sum_observeIn (fun _ => rfl) (fun r => by cases success <;> rfl) bucket t.records

theorem attempts_observe (t : Track) (bucket : Bucket) (success : Bool) (latency : Float) :
    (t.observe bucket success latency).attempts = t.attempts + 1 := by
  have hone : success.toNat + (!success).toNat = 1 := by cases success <;> rfl
  rw [attempts, attempts, successes_observe, failures_observe]
  omega

end Track

/-! ## All tracks -/

namespace Learner

variable {σ : Type} {l : Learner σ} {name : String}

theorem sum_observe {f : Track → Nat} {g : Track → Track} {n : Nat} (hstep : ∀ t, f (g t) = f t + n)
    {ts : List Track} (hnodup : (ts.map Track.strategy).Nodup)
    (hknown : name ∈ ts.map Track.strategy) :
    ((ts.map fun t => if t.strategy = name then g t else t).map f).sum = (ts.map f).sum + n := by
  induction ts with
  | nil => cases hknown
  | cons t ts ih =>
    rw [List.map_cons, List.nodup_cons] at hnodup
    obtain ⟨hfirst, hnodup⟩ := hnodup
    simp only [List.map_cons, List.sum_cons]
    by_cases hname : t.strategy = name
    · have hothers : (ts.map fun t => if t.strategy = name then g t else t) = ts := by
        refine (List.map_congr_left fun u hu => if_neg ?_).trans (List.map_id' ts)
        rintro rfl
        exact hfirst (hname ▸ List.mem_map_of_mem hu)
      rw [if_pos hname, hstep, hothers]
      omega
    · have hrest : name ∈ ts.map Track.strategy :=
        (List.mem_cons.mp hknown).resolve_left fun h => hname h.symm
      rw [if_neg hname, ih hnodup hrest]
      omega

variable (hnodup : l.strategies.Nodup) (hknown : name ∈ l.strategies) (bucket : Bucket)
  (success : Bool) (latency : Duration)
include hnodup hknown

theorem attempts_observe :
    (l.observe name bucket success latency).attempts = l.attempts + 1 := by
  rw [attempts, attempts, foldl_add, foldl_add]
  exact sum_observe (fun t => t.attempts_observe bucket success latency.milliseconds) hnodup hknown

theorem successes_observe :
    (l.observe name bucket success latency).successes = l.successes + success.toNat := by
  rw [successes, successes, foldl_add, foldl_add]
  exact sum_observe (fun t => t.successes_observe bucket success latency.milliseconds) hnodup hknown

end Learner

end Exemplar
