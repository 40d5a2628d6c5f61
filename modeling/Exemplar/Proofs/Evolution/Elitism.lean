import Exemplar.Evolution.Run
import Exemplar.Proofs.Evolution.Fitness
import Exemplar.Proofs.Evolution.Population
import Exemplar.Proofs.Result
import Exemplar.Random.SplitMix

/-!
# The best individual of a run

**The program that a run returns is at least as fit as every program of every generation**
(`evolve_elitist`), whatever the words of the source and the readings of the clock. If the best programs
are kept, no generation is worse than the one before, and the program returned is the best of the last one.
A run ends as perfect if and only if some generation has a program that satisfies all examples, and it ends
with the first such generation.

A run is the iteration of `advance`, cut off somewhere (`runFrom_eq`). The best individual so far is of one
of the generations so far (`bestSoFar_mem`) and at least as fit as all of theirs (`bestSoFar_atLeast`), so
that it is perfect as soon as one of them satisfies all examples (`perfect_bestSoFar`). The best of a
population, if it is kept, comes first in the next one (`nextPopulation_head?`). There it wins all ties, as
the best individual so far does against a newer one, and so the two stay the same (`best?_generation`).
-/

namespace Exemplar

theorem Problem.ne_nil_of_signature {examples : List Example} {s : Signature}
    (h : signature examples = .ok s) : examples ≠ [] := by
  rintro rfl
  cases h

namespace Evolution

open Population

variable {σ : Type} [RandomSource σ] {c : Context} {output : Ty} {source : σ}

/-! ## The generations of a run -/

def start (c : Context) (output : Ty) (source : σ) : State σ :=
  let (population, source) := (firstPopulation c output).run source
  ⟨0, population, population.best?.getD default, [.ofPopulation 0 population], source⟩

/-- The state a number of generations later, had the run not ended. -/
def State.after (c : Context) (s : State σ) : Nat → State σ
  | 0 => s
  | n + 1 => advance c (s.after c n)

/-- The population of each generation of a run. -/
def generation (c : Context) (output : Ty) (source : σ) (n : Nat) : Population :=
  ((start c output source).after c n).population

theorem State.after_advance (c : Context) (s : State σ) (n : Nat) :
    (advance c s).after c n = s.after c (n + 1) := by
  induction n with
  | zero => rfl
  | succ n ih =>
    rw [after, ih]
    rfl

theorem generation_zero : generation c output source 0 = ((firstPopulation c output).run source).1 :=
  rfl

theorem generation_succ (n : Nat) : generation c output source (n + 1) =
    ((nextPopulation c (generation c output source n)).run
      ((start c output source).after c n).source).1 := rfl

theorem isGeneration_generation (c : Context) (output : Ty) (source : σ) (n : Nat) :
    Generation σ c output (generation c output source n) := by
  induction n with
  | zero => exact .first source
  | succ n ih => exact .next _ ih

theorem measured_generation (c : Context) (output : Ty) (source : σ) (n : Nat) :
    ∀ i ∈ generation c output source n,
      i.fitness = Fitness.evaluate c.machine c.examples i.term :=
  (isGeneration_generation c output source n).hereditary (Context.measured_hereditary c output)

theorem size_generation (c : Context) (output : Ty) (source : σ) (n : Nat) :
    (generation c output source n).size = (generation c output source 0).size := by
  induction n with
  | zero => rfl
  | succ n ih =>
    rw [generation_succ, ← ih]
    exact (nextPopulation_ensures (Context.measured_hereditary c output)
      (measured_generation c output source n) _).1

/-- The program of an individual is right on all examples. -/
def Context.Satisfied (c : Context) (i : Individual) : Prop :=
  ∀ ex ∈ c.examples, c.machine.eval i.term ex.inputs = .ok ex.output

/-! ## Where a run ends -/

/-- A run goes on from state to state until one of them ends it; it does not pass a perfect one. -/
theorem runFrom_eq (c : Context) (clock : Clock) (left : Nat) (s : State σ) :
    ∃ n ≤ left, ∃ termination, runFrom c clock left s = (s.after c n).finish termination ∧
      (termination = .perfect ↔ (s.after c n).best.fitness.perfect) ∧
      ∀ k < n, ¬ (s.after c k).best.fitness.perfect := by
  induction left generalizing s with
  | zero =>
    refine ⟨0, le_rfl, _, rfl, ?_, nofun⟩
    rw [State.after]
    split <;> simp [*]
  | succ left ih =>
    rw [runFrom]
    split
    · rename_i hperfect
      exact ⟨0, Nat.zero_le _, .perfect, rfl, by simpa [State.after] using hperfect, nofun⟩
    · rename_i hperfect
      split
      · exact ⟨0, Nat.zero_le _, .timeBudget, rfl, by simpa [State.after] using hperfect, nofun⟩
      · obtain ⟨n, hn, termination, hrun, hend, hbefore⟩ := ih (advance c s)
        simp only [State.after_advance] at hrun hend hbefore
        refine ⟨n + 1, Nat.succ_le_succ hn, termination, hrun, hend, fun k hk => ?_⟩
        cases k with
        | zero => exact hperfect
        | succ k => exact hbefore k (Nat.lt_of_succ_lt_succ hk)

theorem generation_after (n : Nat) : ((start c output source).after c n).generation = n := by
  induction n with
  | zero => rfl
  | succ n ih => exact congrArg (· + 1) ih

theorem history_after (n : Nat) : ((start c output source).after c n).history.reverse =
    (List.range (n + 1)).map fun k => Summary.ofPopulation k (generation c output source k) := by
  induction n with
  | zero => rfl
  | succ n ih =>
    have hstep : ((start c output source).after c (n + 1)).history =
        Summary.ofPopulation (((start c output source).after c n).generation + 1)
          (generation c output source (n + 1)) :: ((start c output source).after c n).history := rfl
    rw [hstep, generation_after, List.reverse_cons, ih, List.range_succ (n := n + 1), List.map_append,
      List.map_singleton]

/-! ## The best individual so far -/

def bestSoFar (c : Context) (output : Ty) (source : σ) (n : Nat) : Individual :=
  ((start c output source).after c n).best

theorem advance_best {s : State σ} {b : Individual}
    (hb : (advance c s).population.best? = some b) : (advance c s).best = fitter s.best b := by
  rw [advance] at hb ⊢
  generalize (nextPopulation c s.population).run s.source = r at hb ⊢
  obtain ⟨p, source⟩ := r
  simp only at hb ⊢
  rw [hb]

theorem bestSoFar_succ {n : Nat} {b : Individual}
    (hb : (generation c output source (n + 1)).best? = some b) :
    bestSoFar c output source (n + 1) = fitter (bestSoFar c output source n) b := advance_best hb

theorem nextPopulation_head? {p : Population} {b : Individual} (hb : p.best? = some b)
    (helite : 1 ≤ c.settings.elitismCount) :
    (nextPopulation c p : Draw σ Population).Ensures fun q => ∃ rest, q.toList = b :: rest := by
  obtain ⟨rest, hranked⟩ := List.head?_eq_some_iff.mp ((head?_ranked p).trans hb)
  obtain ⟨count, hcount⟩ := Nat.exists_eq_add_of_le' helite
  refine (Draw.Ensures.true _).bind fun is _ => .pure ⟨rest.take count ++ is, ?_⟩
  rw [hranked, hcount, List.take_succ_cons, List.cons_append]

section

variable (hfirst : 0 < (generation c output source 0).size)
include hfirst

theorem exists_best (n : Nat) : ∃ b, (generation c output source n).best? = some b := by
  rw [← Option.isSome_iff_exists, best?_isSome_iff, size_generation]
  exact hfirst

theorem bestSoFar_zero : (generation c output source 0).best? = some (bestSoFar c output source 0) := by
  obtain ⟨b, hb⟩ := exists_best hfirst 0
  have hbest : bestSoFar c output source 0 =
      (generation c output source 0).best?.getD default := rfl
  rw [hbest, hb, Option.getD_some]

theorem bestSoFar_mem (n : Nat) :
    ∃ k ≤ n, bestSoFar c output source n ∈ generation c output source k := by
  induction n with
  | zero => exact ⟨0, le_rfl, best?_mem (bestSoFar_zero hfirst)⟩
  | succ n ih =>
    obtain ⟨b, hb⟩ := exists_best hfirst (n + 1)
    rw [bestSoFar_succ hb, fitter]
    split
    · exact ⟨n + 1, le_rfl, best?_mem hb⟩
    · obtain ⟨k, hk, hmem⟩ := ih
      exact ⟨k, Nat.le_succ_of_le hk, hmem⟩

theorem bestSoFar_atLeast (n : Nat) : ∀ k ≤ n, ∀ i ∈ generation c output source k,
    (bestSoFar c output source n).fitness.AtLeast i.fitness := by
  induction n with
  | zero =>
    intro k hk i hi
    obtain rfl := Nat.le_zero.mp hk
    exact best?_atLeast (bestSoFar_zero hfirst) i hi
  | succ n ih =>
    intro k hk i hi
    obtain ⟨b, hb⟩ := exists_best hfirst (n + 1)
    rw [bestSoFar_succ hb]
    rcases Nat.le_succ_iff.mp hk with hk | rfl
    · exact (fitter_atLeast_left _ b).trans (ih k hk i hi)
    · exact (fitter_atLeast_right _ b).trans (best?_atLeast hb i hi)

theorem perfect_bestSoFar (hexamples : c.examples ≠ []) (n : Nat) :
    (bestSoFar c output source n).fitness.perfect ↔
      ∃ k ≤ n, ∃ i ∈ generation c output source k, c.Satisfied i := by
  obtain ⟨m, hm, hmem⟩ := bestSoFar_mem hfirst n
  have hbest := measured_generation c output source m _ hmem
  constructor
  · intro hperfect
    rw [hbest, Fitness.perfect_evaluate] at hperfect
    exact ⟨m, hm, _, hmem, hperfect.2⟩
  · rintro ⟨k, hk, i, hi, hsatisfied⟩
    have hi' := measured_generation c output source k i hi
    have hperfect : i.fitness.perfect := by
      rw [hi', Fitness.perfect_evaluate]
      exact ⟨hexamples, hsatisfied⟩
    have hle := (bestSoFar_atLeast hfirst n k hk i hi).satisfied_le
    have hbound := Fitness.satisfied_le_total c.machine c.examples
      (bestSoFar c output source n).term
    have htotal : (bestSoFar c output source n).fitness.total = i.fitness.total := by
      rw [hbest, hi']
      rfl
    rw [Fitness.perfect_iff] at hperfect ⊢
    rw [← hbest] at hbound
    omega

theorem best?_generation (helite : 1 ≤ c.settings.elitismCount) (n : Nat) :
    (generation c output source n).best? = some (bestSoFar c output source n) := by
  induction n with
  | zero => exact bestSoFar_zero hfirst
  | succ n ih =>
    obtain ⟨rest, hrest⟩ := nextPopulation_head? ih helite ((start c output source).after c n).source
    have hbest : (generation c output source (n + 1)).best? =
        some (rest.foldl fitter (bestSoFar c output source n)) := best?_of_toList hrest
    rw [bestSoFar_succ hbest, hbest, fitter_foldl_self]

end

/-! ## The outcome of a run -/

/-- What an outcome says of the generations `p 0`, `p 1`, … of its run. -/
structure Outcome.Elitist (c : Context) (p : Nat → Population) (o : Outcome) : Prop where
  greatest : ∀ k ≤ o.generations, ∀ i ∈ p k, o.best.fitness.AtLeast i.fitness
  monotone : 1 ≤ c.settings.elitismCount → ∀ k < o.generations, ∃ b b',
    (p k).best? = some b ∧ (p (k + 1)).best? = some b' ∧ b'.fitness.AtLeast b.fitness
  last : 1 ≤ c.settings.elitismCount → (p o.generations).best? = some o.best
  generations_le : o.generations ≤ c.settings.generations
  history_eq : o.history =
    (List.range (o.generations + 1)).map fun k => Summary.ofPopulation k (p k)
  length_history : o.history.length = o.generations + 1
  perfect_iff : o.termination = .perfect ↔ ∃ k ≤ o.generations, ∃ i ∈ p k, c.Satisfied i
  before : ∀ k < o.generations, ∀ i ∈ p k, ¬ c.Satisfied i

theorem runFrom_elitist (hfirst : 0 < (generation c output source 0).size)
    (hexamples : c.examples ≠ []) (clock : Clock) :
    (runFrom c clock c.settings.generations (start c output source)).Elitist c
      (generation c output source) := by
  obtain ⟨n, hn, termination, hrun, hperfect, hbefore⟩ :=
    runFrom_eq c clock c.settings.generations (start c output source)
  have hgenerations : (runFrom c clock c.settings.generations (start c output source)).generations =
      n := by
    rw [hrun]
    exact generation_after n
  have hhistory : (runFrom c clock c.settings.generations (start c output source)).history =
      (List.range (n + 1)).map fun k => Summary.ofPopulation k (generation c output source k) := by
    rw [hrun]
    exact history_after n
  constructor
  case greatest =>
    rw [hgenerations, hrun]
    exact bestSoFar_atLeast hfirst n
  case monotone =>
    intro helite k _
    obtain ⟨b, hb⟩ := exists_best hfirst k
    have hnext := best?_generation hfirst helite (k + 1)
    refine ⟨b, _, hb, hnext, ?_⟩
    exact bestSoFar_atLeast hfirst (k + 1) k (Nat.le_succ k) b (best?_mem hb)
  case last =>
    intro helite
    rw [hgenerations, hrun]
    exact best?_generation hfirst helite n
  case generations_le => rwa [hgenerations]
  case history_eq => rw [hgenerations, hhistory]
  case length_history => rw [hgenerations, hhistory, List.length_map, List.length_range]
  case perfect_iff =>
    rw [hgenerations, hrun, ← perfect_bestSoFar hfirst hexamples]
    exact hperfect
  case before =>
    rw [hgenerations]
    intro k hk i hi hsatisfied
    exact hbefore k hk ((perfect_bestSoFar hfirst hexamples k).mpr ⟨k, le_rfl, i, hi, hsatisfied⟩)

theorem evolve_eq_ok {t : Table} {s : Settings} {clock : Clock} {examples : List Example} {o : Outcome}
    (h : evolve t s clock examples source = .ok o) :
    ∃ signature, Problem.signature examples = .ok signature ∧
      let c := Context.ofProblem t s signature.params examples
      0 < (generation c signature.ret source 0).size ∧
      o = runFrom c clock s.generations (start c signature.ret source) := by
  rw [evolve] at h
  obtain ⟨-, -, h⟩ := bind_eq_ok.mp h
  cases hsignature : Problem.signature examples with
  | error cause =>
    rw [hsignature] at h
    cases h
  | ok signature =>
    rw [hsignature] at h
    obtain ⟨signature', hok, h⟩ := bind_eq_ok.mp h
    obtain rfl : signature = signature' := Except.ok.inj hok
    refine ⟨signature, rfl, ?_⟩
    dsimp only at h ⊢
    generalize Context.ofProblem t s signature.params examples = c at h ⊢
    split at h
    · cases h
    · generalize hrun : (firstPopulation c signature.ret).run source = r at h
      obtain ⟨p, source'⟩ := r
      have hfirst : generation c signature.ret source 0 = p := by rw [generation_zero, hrun]
      rw [hfirst, ← best?_isSome_iff]
      cases hbest : p.best? with
      | none =>
        simp only [hbest] at h
        cases h
      | some b =>
        have hstart : start c signature.ret source = ⟨0, p, b, [.ofPopulation 0 p], source'⟩ := by
          rw [start, hrun]
          simp only [hbest, Option.getD_some]
        simp only [hbest] at h
        rw [hstart]
        exact ⟨rfl, (pure_eq_ok.mp h).symm⟩

/-- **Elitism and the best individual of a run.** Of a run that returns an outcome, whatever the words of
its source and the readings of its clock. -/
theorem evolve_elitist {t : Table} {s : Settings} {clock : Clock} {examples : List Example}
    {o : Outcome} (h : evolve t s clock examples source = .ok o) :
    ∃ signature, Problem.signature examples = .ok signature ∧
      let c := Context.ofProblem t s signature.params examples
      o.Elitist c (generation c signature.ret source) := by
  obtain ⟨signature, hsignature, hfirst, rfl⟩ := evolve_eq_ok h
  exact ⟨signature, hsignature,
    runFrom_elitist hfirst (Problem.ne_nil_of_signature hsignature) clock⟩

/-- A run towards `x * x + 1` that keeps the best two of six programs. -/
theorem evolve_elitist_successor_of_square :
    let t := Table.ofBuiltins [.add, .mul]
    let s : Settings := { Settings.standard with
      populationSize := 6, generations := 3, crossoverRate := 1.0, mutationRate := 1.0 }
    let examples : List Example := [⟨[.int 3], .int 10⟩, ⟨[.int 2], .int 5⟩]
    let c := Context.ofProblem t s [.int] examples
    1 ≤ c.settings.elitismCount ∧
      ∃ o, evolve t s (fun _ => false) examples (SplitMix.ofSeed 24) = .ok o ∧
        o.Elitist c (generation c .int (SplitMix.ofSeed 24)) := by
  intro t s examples c
  have hrun : ∃ o, evolve t s (fun _ => false) examples (SplitMix.ofSeed 24) = .ok o := by
    decide +kernel
  obtain ⟨o, ho⟩ := hrun
  obtain ⟨signature, hsignature, helitist⟩ := evolve_elitist ho
  obtain rfl : (⟨[.int], .int⟩ : Signature) = signature := Except.ok.inj hsignature
  exact ⟨by decide, o, ho, helitist⟩

end Evolution

end Exemplar
