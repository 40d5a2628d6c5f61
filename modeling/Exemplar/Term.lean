import Exemplar.Value

/-!
# Terms

A program is a term: a literal value, an input variable, or a primitive applied to terms. This
module holds the measures of a term, the positions it names, and the addressing of its subterms by
paths of argument indices.
-/

namespace Exemplar

/-- A program over the input variables `x0`, `x1`, … -/
inductive Term where
  | lit (v : Value)
  | var (i : Nat)
  | apply (id : PrimId) (args : List Term)
  deriving Inhabited, Repr

namespace Term

/-! ## Equality -/

mutual

def decEq : (a b : Term) → Decidable (a = b)
  | .lit v, .lit w =>
    if h : v = w then isTrue (by rw [h]) else isFalse (fun e => h (Term.lit.inj e))
  | .var i, .var j =>
    if h : i = j then isTrue (by rw [h]) else isFalse (fun e => h (Term.var.inj e))
  | .apply p as, .apply q bs =>
    if h : p = q then
      match decEqList as bs with
      | isTrue hs => isTrue (by rw [h, hs])
      | isFalse hs => isFalse (fun e => hs (Term.apply.inj e).2)
    else isFalse (fun e => h (Term.apply.inj e).1)
  | .lit _, .var _ | .lit _, .apply .. => isFalse (fun h => Term.noConfusion h)
  | .var _, .lit _ | .var _, .apply .. => isFalse (fun h => Term.noConfusion h)
  | .apply .., .lit _ | .apply .., .var _ => isFalse (fun h => Term.noConfusion h)

def decEqList : (as bs : List Term) → Decidable (as = bs)
  | [], [] => isTrue rfl
  | [], _ :: _ => isFalse (fun h => List.noConfusion rfl (heq_of_eq h))
  | _ :: _, [] => isFalse (fun h => List.noConfusion rfl (heq_of_eq h))
  | a :: as, b :: bs =>
    match decEq a b, decEqList as bs with
    | isTrue h, isTrue hs => isTrue (by rw [h, hs])
    | isFalse h, _ => isFalse (fun e => h (List.cons.inj e).1)
    | _, isFalse hs => isFalse (fun e => hs (List.cons.inj e).2)

end

instance : DecidableEq Term := decEq

/-! ## Measures -/

mutual

/-- The number of literals, variables and applications. -/
def nodes : Term → Nat
  | .lit _ => 1
  | .var _ => 1
  | .apply _ args => 1 + nodesList args

def nodesList : List Term → Nat
  | [] => 0
  | t :: ts => t.nodes + nodesList ts

end

mutual

/-- The nesting of applications: a leaf has depth zero, an application is one deeper than its
deepest argument. -/
def depth : Term → Nat
  | .lit _ => 0
  | .var _ => 0
  | .apply _ args => 1 + depthList args

/-- The greatest depth of a member, zero if there is none. -/
def depthList : List Term → Nat
  | [] => 0
  | t :: ts => max t.depth (depthList ts)

end

mutual

/-- The weighted size: a leaf weighs one and an application of `id` weighs `cost id`. -/
def weight (cost : PrimId → Nat) : Term → Nat
  | .lit _ => 1
  | .var _ => 1
  | .apply id args => cost id + weightList cost args

def weightList (cost : PrimId → Nat) : List Term → Nat
  | [] => 0
  | t :: ts => t.weight cost + weightList cost ts

end

mutual

/-- The greatest variable index that occurs. -/
def maxVar? : Term → Option Nat
  | .lit _ => none
  | .var i => some i
  | .apply _ args => maxVarList? args

def maxVarList? : List Term → Option Nat
  | [] => none
  | t :: ts => max t.maxVar? (maxVarList? ts)

end

mutual

/-- The positions named by applications and by function literals, from the root downwards. -/
def primitives : Term → List PrimId
  | .lit (.func f) => f.primitives
  | .lit _ => []
  | .var _ => []
  | .apply id args => id :: primitivesList args

def primitivesList : List Term → List PrimId
  | [] => []
  | t :: ts => t.primitives ++ primitivesList ts

end

/-! ## Paths -/

/-- The argument indices that lead from the root to a subterm. -/
abbrev Path := List Nat

mutual

/-- Every subterm with its path, the root first and arguments from the left. -/
def subterms : Term → List (Path × Term)
  | .lit v => [([], .lit v)]
  | .var i => [([], .var i)]
  | .apply id args => ([], .apply id args) :: subtermsFrom 0 args

/-- The subterms of arguments, the first of which has index `i`. -/
def subtermsFrom (i : Nat) : List Term → List (Path × Term)
  | [] => []
  | t :: ts => t.subterms.map (fun s => (i :: s.1, s.2)) ++ subtermsFrom (i + 1) ts

end

/-- The subterm at a path. -/
def at? : Term → Path → Option Term
  | t, [] => some t
  | .apply _ args, i :: rest => args[i]?.bind (fun a => a.at? rest)
  | _, _ :: _ => none

/-- The term with `new` at a path; a path that leads nowhere changes nothing. -/
def replaceAt (new : Term) : Term → Path → Term
  | _, [] => new
  | .apply id args, i :: rest => .apply id (args.modify i (fun a => replaceAt new a rest))
  | t, _ :: _ => t

end Term

end Exemplar
