import Exemplar.Session.Request

/-!
# Expansion

A verified program can become a capability, that is, a primitive for later programs. A demonstration
shows a target that cannot be reached from the seeds alone, but after a curriculum of easier
problems.
-/

namespace Exemplar

/-- Whether a table begins like the other one as far as names go. -/
def Table.continuedBy (t u : Table) : Bool :=
  t.size ≤ u.size &&
    t.toList.all (fun p => (u.get? p.id).any (fun q => q.name == p.name))

namespace Session

def capabilityCost : Nat := 1

/-- Offers a program that passed all checks to the catalog. The answer is whether it is taken in. -/
def promote (p : Program) : Op Bool := do
  let s ← get
  if !p.table.continuedBy s.catalog.table then throw .foreignProgram
  else
    Op.of (Error.lift .shortfall p.require)
    let (admission, catalog) ← Op.of
      (s.catalog.register s.catalog.freeName p.signature p.term capabilityCost)
    match admission with
    | .admitted _ =>
      set { s with catalog, tally.admitted := s.tally.admitted + 1 }
      return true
    | .duplicate _ =>
      set { s with tally.duplicates := s.tally.duplicates + 1 }
      return false

/-- Solves a problem and promotes the program if it is verified. The answer is whether it was taken
in, and its rendering. -/
def study (examples : List Example) : Op (Bool × String) := do
  match ← solve examples true with
  | none => return (false, Emergence.noSolution)
  | some p =>
    let admitted ← if p.verified then promote p else pure false
    return (admitted, p.rendering)

/-- Studies problems one after the other. -/
def expand (problems : List (List Example)) : Op (List (Bool × String)) := problems.mapM study

def admissions (studies : List (Bool × String)) : Nat := studies.countP (·.1)

/-- Studies problems one after the other; the answer is the number of capabilities. -/
def learn (problems : List (List Example)) : Op Nat := return admissions (← expand problems)

/-! ## Emergence -/

/-- The powers of the numbers from zero to five as a problem. -/
def powers (exponent : Nat) : List Example :=
  (List.range 6).map (fun x : Nat => ⟨[.int x], .int (Nat.pow x exponent : Nat)⟩)

def targetExponent : Nat := 16

def curriculumExponents : List Nat := [2, 4]

/-- Tries the target over the seeds alone, studies the curriculum, and tries the target again. -/
def demonstrate : Op Emergence := do
  let target := powers targetExponent
  let s ← get
  let before ← request s.settings true s.catalog.seedTable target
  let studies ← expand (curriculumExponents.map powers)
  let after ← solve target true
  let sizeAfter := (← get).catalog.size
  return {
    target := "f(x) = x^" ++ toString targetExponent ++ " for x in 0..=5"
    solvableBefore := before.isSome
    solvableAfter := after.isSome
    solutionBefore := before.map Program.rendering
    solutionAfter := after.map Program.rendering
    curriculum := studies.map (·.2)
    admitted := admissions studies
    sizeBefore := s.catalog.seedTable.size
    sizeAfter
    expansion := Float.ofNat sizeAfter / Float.ofNat s.catalog.seedTable.size }

end Session

end Exemplar
