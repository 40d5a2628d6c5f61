import Exemplar.Text

/-!
# Types

A type is an integer, a boolean, a list of integers, or a function type with any number of
parameters. Types are ordered: plain types first, then function types by their parameters from the
left and by their result last.
-/

namespace Exemplar

inductive Ty where
  | int
  | bool
  | list
  | func (params : List Ty) (ret : Ty)
  deriving Inhabited, Repr, Hashable

namespace Ty

/-! ## Equality -/

mutual

def decEq : (a b : Ty) → Decidable (a = b)
  | .int, .int => isTrue rfl
  | .bool, .bool => isTrue rfl
  | .list, .list => isTrue rfl
  | .func ps r, .func qs s =>
    match decEqList ps qs, decEq r s with
    | isTrue hp, isTrue hr => isTrue (by rw [hp, hr])
    | isFalse hp, _ => isFalse (fun h => hp (Ty.func.inj h).1)
    | _, isFalse hr => isFalse (fun h => hr (Ty.func.inj h).2)
  | .int, .bool | .int, .list | .int, .func .. => isFalse (fun h => Ty.noConfusion h)
  | .bool, .int | .bool, .list | .bool, .func .. => isFalse (fun h => Ty.noConfusion h)
  | .list, .int | .list, .bool | .list, .func .. => isFalse (fun h => Ty.noConfusion h)
  | .func .., .int | .func .., .bool | .func .., .list => isFalse (fun h => Ty.noConfusion h)

def decEqList : (ps qs : List Ty) → Decidable (ps = qs)
  | [], [] => isTrue rfl
  | [], _ :: _ => isFalse (fun h => List.noConfusion rfl (heq_of_eq h))
  | _ :: _, [] => isFalse (fun h => List.noConfusion rfl (heq_of_eq h))
  | p :: ps, q :: qs =>
    match decEq p q, decEqList ps qs with
    | isTrue h, isTrue hs => isTrue (by rw [h, hs])
    | isFalse h, _ => isFalse (fun e => h (List.cons.inj e).1)
    | _, isFalse hs => isFalse (fun e => hs (List.cons.inj e).2)

end

instance : DecidableEq Ty := decEq

/-! ## Shape -/

/-- Whether values of the type are plain data. -/
def firstOrder : Ty → Bool
  | .func .. => false
  | _ => true

/-! ## Order -/

/-- The place of a type's outermost form in the order. -/
def rank : Ty → Nat
  | .int => 0
  | .bool => 1
  | .list => 2
  | .func .. => 3

mutual

/-- Plain types in the order `int`, `bool`, `list`, then function types. -/
def order : Ty → Ty → Ordering
  | .func ps r, .func qs s => (orderList ps qs).then (order r s)
  | a, b => compare a.rank b.rank

/-- Lists of types in lexicographic order, a shorter list before its extensions. -/
def orderList : List Ty → List Ty → Ordering
  | [], [] => .eq
  | [], _ :: _ => .lt
  | _ :: _, [] => .gt
  | p :: ps, q :: qs => (order p q).then (orderList ps qs)

end

/-- Whether the first type comes before the second or equals it. -/
def le (a b : Ty) : Bool := (order a b).isLE

/-- The types in ascending order; equal types keep their places. -/
def sort (tys : List Ty) : List Ty := tys.mergeSort le

/-! ## Text -/

mutual

/-- A function type is written in parentheses: its parameters with commas, an arrow, its result. -/
def text : Ty → String
  | .int => "int"
  | .bool => "bool"
  | .list => "list"
  | .func ps r => "(" ++ Text.commas (texts ps) ++ " -> " ++ r.text ++ ")"

def texts : List Ty → List String
  | [] => []
  | p :: ps => p.text :: texts ps

end

end Ty

/-- What a function takes and returns. -/
structure Signature where
  params : List Ty
  ret : Ty
  deriving Inhabited, Repr, Hashable, DecidableEq

namespace Signature

/-- The function type with this signature. -/
def asTy (s : Signature) : Ty := .func s.params s.ret

def arity (s : Signature) : Nat := s.params.length

def firstOrder (s : Signature) : Bool := s.params.all Ty.firstOrder && s.ret.firstOrder

/-- A signature is written as its function type. -/
def text (s : Signature) : String := s.asTy.text

end Signature

end Exemplar
