import Exemplar.Evolution.Vocabulary

/-!
# Variation

Offspring are made by exchanging subterms of one type between two parents, or by changing one
subterm of a parent into another one of its type. Types are thus kept.
-/

namespace Exemplar

/-- How a program is mutated. -/
inductive Mutation where
  /-- A primitive or terminal is replaced by another one of the same type. -/
  | point
  /-- A subterm is grown anew. -/
  | subtree
  /-- The program is replaced by a subterm of its own type. -/
  | hoist
  deriving Inhabited, Repr, DecidableEq

def Mutation.all : List Mutation := [.point, .subtree, .hoist]

namespace Vocabulary

/-- The paths of all subterms that have a type, with these types. -/
def typedSubterms (v : Vocabulary) (e : Term) : List (Term.Path × Ty) :=
  e.subterms.filterMap (fun s => ((s.2.infer v.table v.inputs).toOption).map (fun ty => (s.1, ty)))

/-- The pairs of positions in two programs whose subterms have the same type. -/
def exchangePoints (v : Vocabulary) (a b : Term) : List (Term.Path × Term.Path) :=
  let points := v.typedSubterms b
  (v.typedSubterms a).flatMap
    (fun p => (points.filter (fun q => q.2 = p.2)).map (fun q => (p.1, q.1)))

end Vocabulary

namespace Term

/-- Two programs with their subterms at two positions exchanged. -/
def exchange (a b : Term) (p q : Path) : Term × Term :=
  match a.at? p, b.at? q with
  | some x, some y => (replaceAt y a p, replaceAt x b q)
  | _, _ => (a, b)

end Term

namespace Vocabulary

variable {σ : Type} [RandomSource σ]

/-- Exchanges subterms of one type between two programs, if there are any. -/
def crossover (v : Vocabulary) (a b : Term) : Draw σ (Term × Term) := do
  match ← Random.choose (v.exchangePoints a b) with
  | some (p, q) => return a.exchange b p q
  | none => return (a, b)

/-- What may stand for a subterm of a type with the same arguments, if anything does. -/
def substitute (v : Vocabulary) (ty : Ty) : Term → Draw σ (Option Term)
  | .apply id args => return (← Random.choose (v.alternatives id)).map (fun i => .apply i args)
  | _ => v.leaf ty

/-- The program with one primitive or terminal replaced. -/
def mutatePoint (v : Vocabulary) (e : Term) : Draw σ Term := do
  match ← Random.choose (v.typedSubterms e) with
  | none => return e
  | some (path, ty) =>
    match e.at? path with
    | none => return e
    | some s => return ((← v.substitute ty s).map (fun new => Term.replaceAt new e path)).getD e

/-- The program with a subterm grown anew, so deep that `maxDepth` is kept. -/
def mutateSubtree (v : Vocabulary) (maxDepth : Nat) (e : Term) : Draw σ Term := do
  match ← Random.choose (v.typedSubterms e) with
  | none => return e
  | some (path, ty) =>
    let grown ← v.tree .grow (maxDepth - path.length) ty
    return (grown.map (fun new => Term.replaceAt new e path)).getD e

/-- The paths of all proper subterms with the type of the first typed subterm. -/
def hoistPoints (v : Vocabulary) (e : Term) : List Term.Path :=
  match v.typedSubterms e with
  | [] => []
  | first :: rest => (rest.filter (fun p => p.2 = first.2)).map (·.1)

/-- A proper subterm of the program's type, or the program if it has none. -/
def mutateHoist (v : Vocabulary) (e : Term) : Draw σ Term :=
  return ((← Random.choose (v.hoistPoints e)).bind e.at?).getD e

def mutate (v : Vocabulary) (maxDepth : Nat) (e : Term) : Mutation → Draw σ Term
  | .point => v.mutatePoint e
  | .subtree => v.mutateSubtree maxDepth e
  | .hoist => v.mutateHoist e

end Vocabulary

end Exemplar
