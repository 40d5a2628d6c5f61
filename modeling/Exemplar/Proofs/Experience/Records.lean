import Exemplar.Experience.Record
import Exemplar.Proofs.Ty

/-!
# The records of a strategy

A report changes the record of its bucket, and no other one (`record?_observe`,
`record?_observe_of_ne`).

Records stand in the order of their buckets. Only where they ascend is a bucket that comes before a
record known to have none further on, so that inserting a record there does not repeat the bucket. This
is what the order of buckets has to be transitive for (`Record.Ascending.observeIn`).
-/

namespace Exemplar

/-! ## The order of buckets -/

namespace Bucket

/-- The numbers that spell a bucket. -/
def code (b : Bucket) : List Nat :=
  b.arity :: (b.output.code ++ [b.examples.rank, b.magnitude.rank])

theorem order_eq_compare (a b : Bucket) : a.order b = compare a.code b.code := by
  simp [order, code, List.compare_cons_cons, Ty.compare_code]

instance transCmp_order : Std.TransCmp order := Ty.transCmp_of_code order_eq_compare

theorem eq_of_order {a b : Bucket} (h : a.order b = .eq) : a = b := by
  obtain ⟨arity, output, examples, magnitude⟩ := a
  obtain ⟨arity', output', examples', magnitude'⟩ := b
  simp only [order, Ordering.then_eq_eq, Nat.compare_eq_eq, Ty.order_eq_eq] at h
  obtain ⟨rfl, rfl, hexamples, hmagnitude⟩ := h
  have hexamples : examples = examples' := by
    cases examples <;> cases examples' <;> simp [ExampleBand.rank] at hexamples ⊢
  have hmagnitude : magnitude = magnitude' := by
    cases magnitude <;> cases magnitude' <;> simp [MagnitudeBand.rank] at hmagnitude ⊢
  rw [hexamples, hmagnitude]

theorem ne_of_order_lt {a b : Bucket} (h : a.order b = .lt) : a ≠ b := by
  rintro rfl
  have hself : a.order a = .eq := Std.ReflCmp.compare_self
  rw [hself] at h
  cases h

end Bucket

/-! ## Records in the order of their buckets -/

namespace Record

variable {bucket other : Bucket} {success : Bool} {latency : Float} {rs : List Record}

/-- The buckets of the records ascend. -/
def Ascending (rs : List Record) : Prop := rs.Pairwise fun r s => r.bucket.order s.bucket = .lt

theorem bucket_of_mem_observeIn {s : Record} (h : s ∈ observeIn bucket success latency rs) :
    s.bucket = bucket ∨ ∃ r ∈ rs, r.bucket = s.bucket := by
  induction rs with
  | nil =>
    rw [observeIn, List.mem_singleton] at h
    exact .inl (congrArg Record.bucket h)
  | cons r rs ih =>
    rw [observeIn] at h
    split at h
    · rcases List.mem_cons.mp h with rfl | h
      · exact .inl rfl
      · exact .inr ⟨s, h, rfl⟩
    · rcases List.mem_cons.mp h with rfl | h
      · exact .inr ⟨r, List.mem_cons_self, rfl⟩
      · exact .inr ⟨s, List.mem_cons_of_mem r h, rfl⟩
    · rcases List.mem_cons.mp h with rfl | h
      · exact .inr ⟨s, List.mem_cons_self, rfl⟩
      · exact (ih h).imp id fun ⟨q, hq, hbucket⟩ => ⟨q, List.mem_cons_of_mem r hq, hbucket⟩

theorem Ascending.observeIn (h : Ascending rs) :
    Ascending (observeIn bucket success latency rs) := by
  induction rs with
  | nil => exact List.pairwise_singleton _ _
  | cons r rs ih =>
    obtain ⟨hr, hrs⟩ := List.pairwise_cons.mp h
    rw [Record.observeIn]
    split
    · rename_i hlt
      refine List.pairwise_cons.mpr ⟨fun s hs => ?_, h⟩
      rcases List.mem_cons.mp hs with rfl | hs
      · exact hlt
      · exact Std.TransCmp.lt_trans hlt (hr s hs)
    · exact List.pairwise_cons.mpr ⟨hr, hrs⟩
    · rename_i hgt
      refine List.pairwise_cons.mpr ⟨fun s hs => ?_, ih hrs⟩
      rcases bucket_of_mem_observeIn hs with hbucket | ⟨q, hq, hbucket⟩
      · rw [hbucket]
        exact Std.OrientedCmp.gt_iff_lt.mp hgt
      · exact hbucket ▸ hr q hq

theorem find?_cons_of_eq {r : Record} (h : r.bucket = bucket) (rs : List Record) :
    (r :: rs).find? (fun r => r.bucket == bucket) = some r := by
  simp [h]

theorem find?_cons_of_ne {r : Record} (h : r.bucket ≠ bucket) (rs : List Record) :
    (r :: rs).find? (fun r => r.bucket == bucket) = rs.find? fun r => r.bucket == bucket := by
  simp [h]

theorem find?_observeIn_of_ne (hne : bucket ≠ other) :
    (observeIn bucket success latency rs).find? (fun r => r.bucket == other) =
      rs.find? fun r => r.bucket == other := by
  induction rs with
  | nil => rw [observeIn, find?_cons_of_ne hne]
  | cons r rs ih =>
    rw [observeIn]
    split
    · rw [find?_cons_of_ne hne]
    · rename_i heq
      have hr : r.bucket ≠ other := Bucket.eq_of_order heq ▸ hne
      have hchanged : (r.observe success latency).bucket ≠ other := hr
      rw [find?_cons_of_ne hr, find?_cons_of_ne hchanged]
    · rw [List.find?_cons, List.find?_cons, ih]

theorem Ascending.find?_observeIn (h : Ascending rs) :
    (Record.observeIn bucket success latency rs).find? (fun r => r.bucket == bucket) =
      some (((rs.find? fun r => r.bucket == bucket).getD (fresh bucket)).observe success latency) := by
  have hnew : ((fresh bucket).observe success latency).bucket = bucket := rfl
  induction rs with
  | nil =>
    rw [Record.observeIn, find?_cons_of_eq hnew]
    rfl
  | cons r rs ih =>
    obtain ⟨hr, hrs⟩ := List.pairwise_cons.mp h
    rw [Record.observeIn]
    split
    · rename_i hlt
      -- the bucket comes before those of all records, so none of them is its own
      have hnone : (r :: rs).find? (fun r => r.bucket == bucket) = none := by
        rw [List.find?_eq_none]
        intro s hs
        have hbefore : bucket.order s.bucket = .lt := by
          rcases List.mem_cons.mp hs with rfl | hs
          · exact hlt
          · exact Std.TransCmp.lt_trans hlt (hr s hs)
        simpa using (Bucket.ne_of_order_lt hbefore).symm
      rw [find?_cons_of_eq hnew, hnone, Option.getD_none]
    · rename_i heq
      have hown : r.bucket = bucket := (Bucket.eq_of_order heq).symm
      have hchanged : (r.observe success latency).bucket = bucket := hown
      rw [find?_cons_of_eq hown, find?_cons_of_eq hchanged, Option.getD_some]
    · rename_i hgt
      have hother : r.bucket ≠ bucket := Bucket.ne_of_order_lt (Std.OrientedCmp.gt_iff_lt.mp hgt)
      rw [find?_cons_of_ne hother, find?_cons_of_ne hother, ih hrs]

end Record

/-! ## Tracks -/

namespace Track

variable {bucket other : Bucket} {success : Bool} {latency : Float} {t : Track}

theorem record?_observe_of_ne (hne : bucket ≠ other) :
    (t.observe bucket success latency).record? other = t.record? other :=
  Record.find?_observeIn_of_ne hne

theorem record?_observe (h : Record.Ascending t.records) :
    (t.observe bucket success latency).record? bucket =
      some (((t.record? bucket).getD (.fresh bucket)).observe success latency) :=
  h.find?_observeIn

end Track

end Exemplar
