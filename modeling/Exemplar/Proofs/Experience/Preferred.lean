import Exemplar.Proofs.Experience.Bookkeeping
import Exemplar.Proofs.Text

/-!
# Preferred strategies

**Insights name the preferred strategy of every bucket with a record, each bucket once**
(`insights_preferred`).

Entries go by the texts of buckets, and a text that has an entry is not entered again. A bucket with the
text of another one would be left out, but there is none (`Bucket.text_injective`): where an entry stands
in the way, it is that of the bucket itself (`Entered.enterBucket`).
-/

namespace Exemplar

/-! ## Texts of buckets -/

theorem ExampleBand.text_append_inj {a b : ExampleBand} {xs ys : List Char}
    (h : a.text.toList ++ xs = b.text.toList ++ ys) : a = b ∧ xs = ys := by
  cases a <;> cases b <;> simp [text] at h ⊢ <;> exact h

theorem MagnitudeBand.text_injective : Function.Injective text := by
  intro a b h
  cases a <;> cases b <;> simp [text] at h ⊢

namespace Bucket

theorem toList_text (b : Bucket) : b.text.toList =
    Nat.toDigits 10 b.arity ++ '-' :: '>' :: (b.output.text.toList ++
      '/' :: (b.examples.text.toList ++ '/' :: b.magnitude.text.toList)) := by
  simp [text, Nat.toString_eq_repr]

theorem text_injective : Function.Injective text := by
  intro a b h
  have hchars := congrArg String.toList h
  rw [toList_text, toList_text] at hchars
  -- the parts are read from the left
  obtain ⟨harity, hchars⟩ := toDigits_append_inj (by decide) (by decide) hchars
  simp only [List.cons.injEq, true_and] at hchars
  obtain ⟨houtput, hchars⟩ := Ty.text_append_inj a.output b.output hchars
  obtain ⟨hexamples, hchars⟩ := ExampleBand.text_append_inj (List.cons.inj hchars).2
  have hmagnitude := MagnitudeBand.text_injective (String.toList_inj.mp (List.cons.inj hchars).2)
  obtain ⟨⟩ := a
  obtain ⟨⟩ := b
  simp_all

end Bucket

/-! ## Rows of entries -/

namespace Insights

variable {text name : String} {es : List (String × String)} {e : String × String}

/-- The texts of the entries ascend. -/
def Ascending (es : List (String × String)) : Prop := es.Pairwise fun d e => d.1 < e.1

theorem eq_or_mem_of_mem_enter (h : e ∈ enter text name es) : e = (text, name) ∨ e ∈ es := by
  induction es with
  | nil => exact .inl (List.mem_singleton.mp h)
  | cons d es ih =>
    rw [enter] at h
    split at h
    · exact List.mem_cons.mp h
    · split at h
      · rcases List.mem_cons.mp h with rfl | h
        · exact .inr List.mem_cons_self
        · exact (ih h).imp_right (List.mem_cons_of_mem d)
      · exact .inr h

theorem mem_enter_of_mem (h : e ∈ es) : e ∈ enter text name es := by
  induction es with
  | nil => cases h
  | cons d es ih =>
    rw [enter]
    split
    · exact List.mem_cons_of_mem _ h
    · split
      · rcases List.mem_cons.mp h with rfl | h
        · exact List.mem_cons_self
        · exact List.mem_cons_of_mem d (ih h)
      · exact h

theorem mem_enter_self (text name : String) (es : List (String × String)) :
    (text, name) ∈ enter text name es ∨ ∃ e ∈ es, e.1 = text := by
  induction es with
  | nil => exact .inl List.mem_cons_self
  | cons d es ih =>
    rw [enter]
    split
    · exact .inl List.mem_cons_self
    · rename_i hbefore
      split
      · refine ih.imp (List.mem_cons_of_mem d) ?_
        rintro ⟨e, he, htext⟩
        exact ⟨e, List.mem_cons_of_mem d he, htext⟩
      · rename_i hafter
        have hsame : d.1 = text := Std.le_antisymm (String.not_lt.mp hbefore) (String.not_lt.mp hafter)
        exact .inr ⟨d, List.mem_cons_self, hsame⟩

theorem Ascending.enter (h : Ascending es) : Ascending (enter text name es) := by
  induction es with
  | nil => exact List.pairwise_singleton _ _
  | cons d es ih =>
    obtain ⟨hd, hes⟩ := List.pairwise_cons.mp h
    rw [Insights.enter]
    split
    · rename_i hbefore
      refine List.pairwise_cons.mpr ⟨fun e he => ?_, h⟩
      rcases List.mem_cons.mp he with rfl | he
      · exact hbefore
      · exact String.lt_trans hbefore (hd e he)
    · split
      · rename_i hafter
        refine List.pairwise_cons.mpr ⟨fun e he => ?_, ih hes⟩
        rcases eq_or_mem_of_mem_enter he with rfl | he
        · exact hafter
        · exact hd e he
      · exact h

end Insights

/-! ## Preferred strategies -/

namespace Learner

variable {σ : Type} {l : Learner σ}

/-- An entry names a bucket and the first of the strategies for it. -/
structure Prefers (l : Learner σ) (b : Bucket) (e : String × String) : Prop where
  text : e.1 = b.text
  first : (l.preference b).head? = some e.2

/-- The entries are those of some buckets, in the order of their texts. -/
structure Entered (l : Learner σ) (bs : List Bucket) (entries : List (String × String)) : Prop where
  ascending : Insights.Ascending entries
  entry : ∀ b ∈ bs, ∃ e ∈ entries, l.Prefers b e
  bucket : ∀ e ∈ entries, ∃ b ∈ bs, l.Prefers b e

theorem Entered.enterBucket {bs : List Bucket} {entries : List (String × String)}
    (h : l.Entered bs entries) (hknown : l.strategies ≠ []) (b : Bucket) :
    l.Entered (bs ++ [b]) (l.enterBucket entries b) := by
  obtain ⟨name, hfirst⟩ : ∃ name, (l.preference b).head? = some name := by
    have hsome : l.preference b ≠ [] := fun hnone =>
      hknown (List.nil_perm.mp (hnone ▸ name_standings_perm l b))
    exact ⟨_, List.head?_eq_some_head hsome⟩
  have henter : l.enterBucket entries b = Insights.enter b.text name entries := by
    rw [Learner.enterBucket, hfirst]
  rw [henter]
  refine ⟨h.ascending.enter, fun b' hb' => ?_, fun e he => ?_⟩
  · rcases List.mem_append.mp hb' with hb' | hb'
    · obtain ⟨e, he, hprefers⟩ := h.entry b' hb'
      exact ⟨e, Insights.mem_enter_of_mem he, hprefers⟩
    · obtain rfl := List.mem_singleton.mp hb'
      rcases Insights.mem_enter_self b'.text name entries with hnew | ⟨e, he, htext⟩
      · exact ⟨_, hnew, rfl, hfirst⟩
      · -- the entry with the text of the bucket is the bucket's own
        obtain ⟨own, -, hprefers⟩ := h.bucket e he
        obtain rfl : own = b' := Bucket.text_injective (hprefers.text.symm.trans htext)
        exact ⟨e, Insights.mem_enter_of_mem he, hprefers⟩
  · rcases Insights.eq_or_mem_of_mem_enter he with rfl | he
    · exact ⟨b, by simp, rfl, hfirst⟩
    · obtain ⟨b', hb', hprefers⟩ := h.bucket e he
      exact ⟨b', List.mem_append_left _ hb', hprefers⟩

theorem Entered.foldl {bs : List Bucket} {entries : List (String × String)} (h : l.Entered bs entries)
    (hknown : l.strategies ≠ []) (more : List Bucket) :
    l.Entered (bs ++ more) (more.foldl l.enterBucket entries) := by
  induction more generalizing bs entries with
  | nil => rwa [List.append_nil]
  | cons b more ih =>
    rw [List.append_cons]
    exact ih (h.enterBucket hknown b)

/-- A bucket with a record. -/
def Recorded (l : Learner σ) (b : Bucket) : Prop := ∃ s, (l.recordFor? s b).isSome = true

theorem recorded_iff (hnodup : l.strategies.Nodup) {b : Bucket} :
    l.Recorded b ↔ b ∈ l.records.map fun r => r.2.bucket := by
  constructor
  · rintro ⟨s, hs⟩
    obtain ⟨r, hr⟩ := Option.isSome_iff_exists.mp hs
    obtain ⟨t, ht, hrecord⟩ := Option.bind_eq_some_iff.mp hr
    have hbucket : r.bucket = b := by simpa using List.find?_some hrecord
    refine List.mem_map.mpr ⟨(t.strategy, r), List.mem_flatMap.mpr ⟨t, List.mem_of_find?_eq_some ht, ?_⟩,
      hbucket⟩
    exact List.mem_map_of_mem (List.mem_of_find?_eq_some hrecord)
  · intro h
    obtain ⟨_, hlisted, rfl⟩ := List.mem_map.mp h
    obtain ⟨t, ht, htrack⟩ := List.mem_flatMap.mp hlisted
    obtain ⟨r, hr, rfl⟩ := List.mem_map.mp htrack
    refine ⟨t.strategy, ?_⟩
    rw [recordFor?, find?_key hnodup ht, Option.bind_some, Track.record?, List.find?_isSome]
    exact ⟨r, hr, beq_self_eq_true _⟩

theorem entered_preferred (l : Learner σ) :
    l.Entered (l.records.map fun r => r.2.bucket) l.preferred := by
  have hempty : l.Entered [] [] := ⟨.nil, nofun, nofun⟩
  by_cases hknown : l.strategies = []
  · have hnone : l.records = [] := by
      rw [records, List.map_eq_nil_iff.mp hknown, List.flatMap_nil]
    rw [preferred, hnone]
    exact hempty
  · exact hempty.foldl hknown _

theorem Entered.exists_forall₂ {bs : List Bucket} {entries : List (String × String)}
    (h : l.Entered bs entries) : ∃ row : List Bucket, row.Nodup ∧ (∀ b, b ∈ row ↔ b ∈ bs) ∧
      List.Forall₂ l.Prefers row entries := by
  choose! bucketOf hmem hprefers using h.bucket
  refine ⟨entries.map bucketOf, ?_, fun b => ?_, ?_⟩
  · refine List.pairwise_map.mpr (h.ascending.imp_of_mem fun {d e} hd he hlt heq => ?_)
    rw [(hprefers d hd).text, (hprefers e he).text, heq] at hlt
    exact String.lt_irrefl _ hlt
  · constructor
    · intro hb
      obtain ⟨e, he, rfl⟩ := List.mem_map.mp hb
      exact hmem e he
    · intro hb
      obtain ⟨e, he, hown⟩ := h.entry b hb
      exact List.mem_map.mpr ⟨e, he, Bucket.text_injective ((hprefers e he).text.symm.trans hown.text)⟩
  · rw [List.forall₂_map_left_iff, List.forall₂_same]
    exact hprefers

variable [RandomSource σ]

/-- **Insights tell the buckets with a record apart, and name for each of them, once, the first strategy of
its order without exploration.** Neither two types nor two buckets have the same text. -/
theorem insights_preferred (rate : Float) (limit : Nat) (source : σ) (calls : List Call) :
    (∀ a b : Ty, a.text = b.text → a = b) ∧ (∀ a b : Bucket, a.text = b.text → a = b) ∧
    let l := (empty rate limit source).after calls
    l.insights.preferred.Pairwise (fun d e => d.1 < e.1) ∧
    ∃ row : List Bucket, row.Nodup ∧ (∀ b, b ∈ row ↔ ∃ s, (l.recordFor? s b).isSome = true) ∧
      List.Forall₂ (fun b e => e.1 = b.text ∧ (l.preference b).head? = some e.2) row
        l.insights.preferred := by
  refine ⟨fun _ _ h => Ty.text_injective h, fun _ _ h => Bucket.text_injective h, ?_⟩
  intro l
  have hnodup : l.strategies.Nodup := ((books_empty rate limit source).after calls).nodup
  have hentered := l.entered_preferred
  obtain ⟨row, hrow, hmem, hprefers⟩ := hentered.exists_forall₂
  refine ⟨hentered.ascending, row, hrow, fun b => (hmem b).trans (recorded_iff hnodup).symm, ?_⟩
  exact hprefers.imp fun _ _ h => ⟨h.text, h.first⟩

end Learner

end Exemplar
