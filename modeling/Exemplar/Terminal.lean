import Exemplar.Primitive

/-!
# Terminals

The leaves that a search may use: the input variables, the integer constants, the two booleans, the
empty list, and the primitives that some primitive takes as an argument.
-/

namespace Exemplar

/-- Adds a type to an ascending list unless it is there. -/
def Ty.insert (ty : Ty) : List Ty → List Ty
  | [] => [ty]
  | t :: ts =>
    match order ty t with
    | .lt => ty :: t :: ts
    | .eq => t :: ts
    | .gt => t :: insert ty ts

namespace Table

/-- The function types among the parameters of all primitives, with repetitions. -/
def functionParams (t : Table) : List Ty :=
  t.toList.flatMap (fun p => p.signature.params.filter (fun ty => !ty.firstOrder))

/-- The function types that some primitive takes, in ascending order. -/
def functionParamTys (t : Table) : List Ty :=
  t.functionParams.foldl (fun tys ty => ty.insert tys) []

end Table

/-- A leaf with its type. -/
structure Terminal where
  term : Term
  ty : Ty
  deriving Inhabited, Repr, DecidableEq

namespace Terminal

def inputVars (inputs : List Ty) : List Terminal :=
  inputs.zipIdx.map (fun (ty, i) => ⟨.var i, ty⟩)

def constants (ints : List Int) : List Terminal := ints.map (fun n => ⟨.lit (.int n), .int⟩)

/-- The constants that are always there. -/
def fixed : List Terminal :=
  [⟨.lit (.bool true), .bool⟩, ⟨.lit (.bool false), .bool⟩, ⟨.lit (.list []), .list⟩]

/-- The primitives on plain data whose type some primitive takes. -/
def functions (t : Table) : List Terminal :=
  (t.toList.filter
    (fun p => p.signature.firstOrder && t.functionParams.contains p.signature.asTy)).map
    (fun p => ⟨.lit (.func (.primitive p.id)), p.signature.asTy⟩)

/-- All terminals of a problem in generation order. -/
def all (t : Table) (inputs : List Ty) (ints : List Int) : List Terminal :=
  inputVars inputs ++ constants ints ++ fixed ++ functions t

end Terminal

end Exemplar
