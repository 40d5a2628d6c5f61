import Exemplar.Random.Source
import Exemplar.Terminal
import Exemplar.Typing

/-!
# Random trees

A vocabulary holds what programs of a problem are made of: the primitives of a table, and terminals.
A tree of a type is grown from the root: a primitive with that result is taken, and trees of its
parameters' types are grown one level below it. If no primitive can be completed, a terminal is
taken.
-/

namespace Exemplar

/-- What programs of a problem are made of. -/
structure Vocabulary where
  table : Table
  /-- The types of the input variables. -/
  inputs : List Ty
  terminals : List Terminal

/-- How a tree is grown. -/
inductive Growth where
  /-- A terminal may be taken at any depth. -/
  | grow
  /-- Primitives are taken down to the greatest depth, as far as the types allow it. -/
  | full
  deriving Inhabited, Repr, DecidableEq

namespace Vocabulary

def ofProblem (t : Table) (inputs : List Ty) (ints : List Int) : Vocabulary :=
  ⟨t, inputs, Terminal.all t inputs ints⟩

def leaves (v : Vocabulary) (ty : Ty) : List Term :=
  (v.terminals.filter (fun l => l.ty = ty)).map Terminal.term

def producers (v : Vocabulary) (ty : Ty) : List Primitive :=
  v.table.toList.filter (fun p => p.signature.ret = ty)

/-- The other primitives with the signature of a primitive. -/
def alternatives (v : Vocabulary) (id : PrimId) : List PrimId :=
  match v.table.get? id with
  | none => []
  | some p =>
    (v.table.toList.filter (fun q => q.id ≠ id ∧ q.signature = p.signature)).map Primitive.id

variable {σ : Type} [RandomSource σ]

def leaf (v : Vocabulary) (ty : Ty) : Draw σ (Option Term) := Random.choose (v.leaves ty)

/-- Trees of some types, given how a tree of a type is grown; none if one of them cannot be
grown. -/
def arguments (grow : Ty → Draw σ (Option Term)) : List Ty → Draw σ (Option (List Term))
  | [] => return some []
  | ty :: tys => do
    match ← grow ty with
    | none => return none
    | some a => return (← arguments grow tys).map (a :: ·)

/-- An application of the first primitive whose arguments can be grown. -/
def firstApplication (grow : Ty → Draw σ (Option Term)) :
    List Primitive → Draw σ (Option Term)
  | [] => return none
  | p :: ps => do
    match ← arguments grow p.signature.params with
    | some args => return some (.apply p.id args)
    | none => firstApplication grow ps

/-- Whether a terminal is tried before any primitive: if there is no primitive, or by the share of
the terminals among everything that has the type. -/
def leafFirst (method : Growth) (leaves : List Term) (producers : List Primitive) : Draw σ Bool :=
  if producers.isEmpty then return true
  else if method = .grow ∧ leaves ≠ [] then
    Random.chance (Float.ofNat leaves.length / Float.ofNat (leaves.length + producers.length))
  else return false

/-- A tree of a type and of at most a depth. -/
def tree (v : Vocabulary) (method : Growth) : (depth : Nat) → Ty → Draw σ (Option Term)
  | 0, ty => v.leaf ty
  | depth + 1, ty => do
    let early ← leafFirst method (v.leaves ty) (v.producers ty)
    match ← (if early then v.leaf ty else pure none) with
    | some e => return some e
    | none =>
      let order ← Random.shuffle (v.producers ty)
      match ← firstApplication (v.tree method depth) order with
      | some e => return some e
      | none => v.leaf ty

end Vocabulary

end Exemplar
