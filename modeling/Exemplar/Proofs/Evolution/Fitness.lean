import Exemplar.Evolution.Population
import Mathlib.Data.List.Sort

/-!
# The best individual

**The best individual of a population is one of its own and at least as fit as all of them** (`best?_mem`,
`best?_atLeast`), **and ranking puts it first** (`head?_ranked`), also where several are equally fit.

Fitness is compared by numbers, one after the other (`atLeast_iff`, `better_iff`), so that every law of the
order is a fact of linear arithmetic. The fitter of two individuals is associative and idempotent
(`fitter_assoc`, `fitter_self`), and so the best of a population is the fitter of its first individual and
the best of the others (`foldl_fitter_cons`). That is what all inductions here use.
-/

namespace Exemplar

namespace Fitness

variable {f g h : Fitness}

/-! ## The order of fitness -/

/-- The first fitness is as great as the second one or greater. -/
def AtLeast (f g : Fitness) : Prop := f.order g ≠ .lt

theorem atLeast_iff : f.AtLeast g ↔ g.satisfied < f.satisfied ∨ f.satisfied = g.satisfied ∧
    (f.size < g.size ∨ f.size = g.size ∧ f.failures ≤ g.failures) := by
  have hlt : f.order g = .lt ↔ f.satisfied < g.satisfied ∨ f.satisfied = g.satisfied ∧
      (g.size < f.size ∨ g.size = f.size ∧ g.failures < f.failures) := by
    simp only [order, Ordering.then_eq_lt, Nat.compare_eq_lt, Nat.compare_eq_eq]
  rw [AtLeast, Ne, hlt]
  omega

theorem better_iff : f.better g ↔ ¬ g.AtLeast f := by
  have hgt : f.order g = .gt ↔ g.satisfied < f.satisfied ∨ f.satisfied = g.satisfied ∧
      (f.size < g.size ∨ g.size = f.size ∧ f.failures < g.failures) := by
    simp only [order, Ordering.then_eq_gt, Nat.compare_eq_gt, Nat.compare_eq_eq]
  rw [better, beq_iff_eq, hgt, atLeast_iff]
  omega

theorem AtLeast.refl (f : Fitness) : f.AtLeast f := by
  rw [atLeast_iff]
  omega

theorem AtLeast.trans (hfg : f.AtLeast g) (hgh : g.AtLeast h) : f.AtLeast h := by
  rw [atLeast_iff] at *
  omega

theorem AtLeast.total (f g : Fitness) : f.AtLeast g ∨ g.AtLeast f := by
  rw [atLeast_iff, atLeast_iff]
  omega

theorem AtLeast.satisfied_le (h : f.AtLeast g) : g.satisfied ≤ f.satisfied := by
  rw [atLeast_iff] at h
  omega

/-! ## The fitness of a program -/

theorem perfect_iff : f.perfect ↔ 0 < f.total ∧ f.satisfied = f.total := by
  simp [perfect]

theorem satisfied_le_total (m : Machine) (examples : List Example) (e : Term) :
    (evaluate m examples e).satisfied ≤ (evaluate m examples e).total :=
  List.countP_le_length.trans_eq (List.length_map _)

theorem perfect_evaluate {m : Machine} {examples : List Example} {e : Term} :
    (evaluate m examples e).perfect ↔
      examples ≠ [] ∧ ∀ ex ∈ examples, m.eval e ex.inputs = .ok ex.output := by
  have hright (r : Except Fault Value) (v : Value) :
      (r.toOption == some v) = true ↔ r = .ok v := by
    cases r <;> simp [Except.toOption]
  rw [perfect_iff, ← List.length_pos_iff]
  refine and_congr Iff.rfl ?_
  have hlength : (evaluate m examples e).total =
      (examples.map fun ex => (m.eval e ex.inputs, ex.output)).length := (List.length_map _).symm
  rw [hlength]
  refine List.countP_eq_length.trans ?_
  rw [List.forall_mem_map]
  exact forall₂_congr fun ex _ => hright _ _

end Fitness

namespace Population

variable {p : Population} {a b : Individual}

/-! ## The fitter of two individuals -/

theorem fitter_atLeast_left (a b : Individual) : (fitter a b).fitness.AtLeast a.fitness := by
  rw [fitter]
  split
  · rename_i hbetter
    exact (Fitness.AtLeast.total _ _).resolve_right (Fitness.better_iff.mp hbetter)
  · exact .refl _

theorem fitter_atLeast_right (a b : Individual) : (fitter a b).fitness.AtLeast b.fitness := by
  rw [fitter]
  split
  · exact .refl _
  · rename_i hbetter
    rwa [Fitness.better_iff, not_not] at hbetter

theorem fitter_eq_left (h : a.fitness.AtLeast b.fitness) : fitter a b = a :=
  if_neg fun hbetter => Fitness.better_iff.mp hbetter h

theorem fitter_eq_right (h : ¬ a.fitness.AtLeast b.fitness) : fitter a b = b :=
  if_pos (Fitness.better_iff.mpr h)

theorem fitter_self (a : Individual) : fitter a a = a := fitter_eq_left (.refl _)

theorem fitter_assoc (a b c : Individual) : fitter (fitter a b) c = fitter a (fitter b c) := by
  by_cases hab : a.fitness.AtLeast b.fitness <;> by_cases hbc : b.fitness.AtLeast c.fitness
  · rw [fitter_eq_left hab, fitter_eq_left hbc, fitter_eq_left hab, fitter_eq_left (hab.trans hbc)]
  · rw [fitter_eq_left hab, fitter_eq_right hbc]
  · rw [fitter_eq_right hab, fitter_eq_left hbc, fitter_eq_right hab]
  · have hcb := (Fitness.AtLeast.total c.fitness b.fitness).resolve_right hbc
    have hac : ¬ a.fitness.AtLeast c.fitness := fun h => hab (h.trans hcb)
    rw [fitter_eq_right hab, fitter_eq_right hbc, fitter_eq_right hac]

instance : Std.Associative fitter := ⟨fitter_assoc⟩

/-! ## The best of a population -/

theorem best?_of_toList {rest : List Individual} (h : p.toList = a :: rest) :
    p.best? = some (rest.foldl fitter a) := by
  rw [best?, h]

theorem best?_isSome_iff : p.best?.isSome ↔ 0 < p.size := by
  rw [best?, ← Array.length_toList]
  cases p.toList <;> simp

theorem foldl_fitter_cons (a b : Individual) (rest : List Individual) :
    (b :: rest).foldl fitter a = fitter a (rest.foldl fitter b) := by
  rw [List.foldl_cons, List.foldl_assoc]

theorem fitter_foldl_self (a : Individual) (rest : List Individual) :
    fitter a (rest.foldl fitter a) = rest.foldl fitter a := by
  rw [← foldl_fitter_cons, List.foldl_cons, fitter_self]

theorem foldl_fitter_mem (a : Individual) (rest : List Individual) :
    rest.foldl fitter a ∈ a :: rest := by
  induction rest generalizing a with
  | nil => exact List.mem_cons_self
  | cons b rest ih =>
    rw [foldl_fitter_cons, fitter]
    split
    · exact List.mem_cons_of_mem _ (ih b)
    · exact List.mem_cons_self

theorem foldl_fitter_atLeast (a : Individual) (rest : List Individual) :
    ∀ i ∈ a :: rest, (rest.foldl fitter a).fitness.AtLeast i.fitness := by
  induction rest generalizing a with
  | nil =>
    intro i hi
    obtain rfl := List.mem_singleton.mp hi
    exact .refl _
  | cons b rest ih =>
    rw [foldl_fitter_cons]
    intro i hi
    rcases List.mem_cons.mp hi with rfl | hi
    · exact fitter_atLeast_left _ _
    · exact (fitter_atLeast_right a _).trans (ih b i hi)

theorem best?_mem (h : p.best? = some b) : b ∈ p := by
  cases hlist : p.toList with
  | nil => simp [best?, hlist] at h
  | cons a rest =>
    obtain rfl := Option.some.inj ((best?_of_toList hlist).symm.trans h)
    rw [← Array.mem_toList_iff, hlist]
    exact foldl_fitter_mem a rest

theorem best?_atLeast (h : p.best? = some b) : ∀ i ∈ p, b.fitness.AtLeast i.fitness := by
  cases hlist : p.toList with
  | nil => simp [best?, hlist] at h
  | cons a rest =>
    obtain rfl := Option.some.inj ((best?_of_toList hlist).symm.trans h)
    intro i hi
    rw [← Array.mem_toList_iff, hlist] at hi
    exact foldl_fitter_atLeast a rest i hi

/-! ## Ranking -/

theorem head?_sortBestFirst (a : Individual) (rest : List Individual) :
    (Fitness.sortBestFirst Individual.fitness (a :: rest)).head? = some (rest.foldl fitter a) := by
  let le (a b : Individual) : Bool := !b.fitness.better a.fitness
  have hle {a b : Individual} : le a b = true ↔ a.fitness.AtLeast b.fitness := by
    rw [Bool.not_eq_true', Bool.eq_false_iff, Ne, Fitness.better_iff, not_not]
  have htrans (a b c : Individual) (hab : le a b) (hbc : le b c) : le a c :=
    hle.mpr ((hle.mp hab).trans (hle.mp hbc))
  have htotal (a b : Individual) : le a b || le b a := by
    rw [Bool.or_eq_true, hle, hle]
    exact Fitness.AtLeast.total _ _
  change ((a :: rest).mergeSort le).head? = _
  induction rest generalizing a with
  | nil => simp
  | cons b rest ih =>
    obtain ⟨front, back, hsort, htail, hfront⟩ := List.mergeSort_cons htrans htotal a (b :: rest)
    have hhead := ih b
    rw [foldl_fitter_cons, hsort]
    rw [htail] at hhead
    generalize rest.foldl fitter b = best at hhead ⊢
    cases front with
    | nil =>
      obtain ⟨back, rfl⟩ := List.head?_eq_some_iff.mp hhead
      have hsorted := List.pairwise_mergeSort htrans htotal (a :: b :: rest)
      rw [hsort] at hsorted
      have hfirst : le a best := (List.pairwise_cons.mp hsorted).1 best List.mem_cons_self
      exact congrArg some (fitter_eq_left (hle.mp hfirst)).symm
    | cons x front =>
      obtain rfl : x = best := Option.some.inj hhead
      have hfirst := hfront x List.mem_cons_self
      rw [Bool.not_eq_true', Bool.eq_false_iff, Ne, hle] at hfirst
      exact congrArg some (fitter_eq_right hfirst).symm

theorem head?_ranked (p : Population) : p.ranked.toList.head? = p.best? := by
  rw [ranked, best?]
  cases p.toList with
  | nil => simp [Fitness.sortBestFirst]
  | cons a rest => exact head?_sortBestFirst a rest

end Population

end Exemplar
