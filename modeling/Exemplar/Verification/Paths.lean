import Exemplar.Eval
import Exemplar.Problem

/-!
# Path exploration

A forced run evaluates a term and takes the branch that an assignment dictates at every conditional
it names. The run is natural if every conditional that it comes to would have taken that branch by
itself. Exploration forces all assignments to the conditionals of a term, up to a budget, and counts
those that no example follows naturally.
-/

namespace Exemplar

/-! ## Forced runs -/

/-- The branches to take at some conditionals, by their paths: `true` is the first branch. -/
abbrev Assignment := Term.Path → Option Bool

/-- The part of an assignment that concerns the argument of an index. -/
def Assignment.below (a : Assignment) (i : Nat) : Assignment := fun path => a (i :: path)

/-- An evaluation under an assignment. -/
structure Run (α : Type) where
  value : Result α
  /-- Whether every conditional that was reached agreed with the assignment. -/
  natural : Bool
  deriving Repr

namespace Run

def plain {α : Type} (r : Result α) : Run α := ⟨r, true⟩

/-- Goes on with the value of a run, if there is one. -/
def andThen {α β : Type} (r : Run α) (next : α → Run β) : Run β :=
  match r.value with
  | .error e => ⟨.error e, r.natural⟩
  | .ok a =>
    let s := next a
    ⟨s.value, r.natural && s.natural⟩

end Run

/-- The branch to take at the root, and whether it is the one that the condition asks for. -/
def Assignment.decide (a : Assignment) (condition : Value) : Run Bool :=
  match condition.toBool, a [] with
  | .ok p, some taken => ⟨.ok taken, taken == p⟩
  | r, _ => .plain r

namespace Machine

mutual

/-- The forced run of a term. -/
def forced (m : Machine) (inputs : List Value) (a : Assignment) : Term → Run Value
  | .lit v => .plain (m.eval (.lit v) inputs)
  | .var i => .plain (m.eval (.var i) inputs)
  | .apply id args =>
    if m.table.conditional id then
      match args with
      | [c, x, y] =>
        ((m.forced inputs (a.below 0) c).andThen a.decide).andThen (fun taken =>
          if taken then m.forced inputs (a.below 1) x else m.forced inputs (a.below 2) y)
      | other => (m.forcedArgs inputs a 0 other).andThen (fun vs => .plain (m.apply id vs))
    else (m.forcedArgs inputs a 0 args).andThen (fun vs => .plain (m.apply id vs))

/-- The forced runs of arguments, the first of which has index `i`. -/
def forcedArgs (m : Machine) (inputs : List Value) (a : Assignment) (i : Nat) :
    List Term → Run (List Value)
  | [] => .plain (.ok [])
  | e :: es =>
    (m.forced inputs (a.below i) e).andThen (fun v =>
      (m.forcedArgs inputs a (i + 1) es).andThen (fun vs => .plain (.ok (v :: vs))))

end

end Machine

/-! ## Assignments to all conditionals -/

/-- Whether a term is an application of the conditional. -/
def Term.isConditional (t : Table) : Term → Bool
  | .apply id _ => t.conditional id
  | _ => false

/-- The paths of all conditionals of a term, the root first. -/
def Term.sites (t : Table) (e : Term) : List Term.Path :=
  (e.subterms.filter (fun s => s.2.isConditional t)).map (·.1)

/-- The assignment of a number: its bit `i` is the branch at site `i`. -/
def Assignment.ofBits (sites : List Term.Path) (bits : Nat) : Assignment :=
  fun path => (sites.idxOf? path).map bits.testBit

/-! ## Exploration -/

/-- What an exploration counts. -/
structure PathReport where
  sites : Nat
  /-- The number of assignments, as far as it is counted. -/
  total : Nat
  /-- The number of assignments that were forced. -/
  explored : Nat
  /-- Explored assignments that no example follows naturally. -/
  untested : Nat
  /-- Forced runs with a value that is not of the wanted type. -/
  illTyped : Nat
  /-- Natural runs without the wanted value. -/
  violating : Nat
  deriving Inhabited, Repr, DecidableEq

namespace PathReport

/-- The greatest number of assignments that is counted. -/
def maxTotal : Nat := 18446744073709551615

/-- The number of assignments to a number of conditionals. -/
def totalOf (sites : Nat) : Nat := if sites < 64 then 1 <<< sites else maxTotal

/-- The forced runs on all examples. -/
def follow (m : Machine) (e : Term) (examples : List Example) (a : Assignment) :
    List (Example × Run Value) :=
  examples.map (fun ex => (ex, m.forced ex.inputs a e))

def isIllTyped (ret : Ty) (r : Example × Run Value) : Bool :=
  match r.2.value with
  | .ok v => v.plainTy? != some ret
  | .error _ => false

/-- Whether a natural run misses the output of its example. -/
def isViolating (r : Example × Run Value) : Bool :=
  r.2.natural && r.2.value.toOption != some r.1.output

/-- Forces at most `budget` assignments to the conditionals of a term. -/
def explore (m : Machine) (budget : Nat) (ret : Ty) (examples : List Example) (e : Term) :
    PathReport :=
  let sites := e.sites m.table
  let total := totalOf sites.length
  let explored := min total budget
  let rows := (List.range explored).map
    (fun bits => follow m e examples (.ofBits sites bits))
  { sites := sites.length
    total
    explored
    untested := rows.countP (fun row => !row.any (fun r => r.2.natural))
    illTyped := rows.flatten.countP (isIllTyped ret)
    violating := rows.flatten.countP isViolating }

def truncated (r : PathReport) : Bool := r.explored < r.total

/-- Whether nothing was found wanting. -/
def clean (r : PathReport) : Bool :=
  r.untested == 0 && r.illTyped == 0 && r.violating == 0 && !r.truncated

def text (r : PathReport) : String :=
  toString r.sites ++ " conditionals, " ++ toString r.explored ++ " paths explored, " ++
    toString r.untested ++ " untested, " ++ toString r.illTyped ++ " ill-typed, " ++
    toString r.violating ++ " violating"

/-- What the report says about its own limits. -/
def notes (r : PathReport) : List String :=
  (if r.truncated then
    ["path exploration truncated at " ++ toString r.explored ++ " of " ++ toString r.total ++
      " assignments"]
  else []) ++
  if 0 < r.untested then
    [toString r.untested ++ " of " ++ toString r.explored ++
      " explored paths have no supporting example"]
  else []

end PathReport

end Exemplar
