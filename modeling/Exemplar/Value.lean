import Exemplar.Ty

/-!
# Values

Values are integers, booleans, lists of integers and functions. A function value names a primitive
by its position in a table, or composes two function values.
-/

namespace Exemplar

/-- The position of a primitive in its table. -/
abbrev PrimId := Nat

inductive Fn where
  /-- The primitive at a position. -/
  | primitive (id : PrimId)
  /-- First the inner function, then the outer one on its result. -/
  | compose (outer inner : Fn)
  deriving Inhabited, Repr, DecidableEq, Hashable

/-- A value that evaluation consumes and produces. -/
inductive Value where
  | int (n : Int)
  | bool (b : Bool)
  | list (xs : List Int)
  | func (f : Fn)
  deriving Inhabited, Repr, DecidableEq, Hashable

def primText (id : PrimId) : String := "prim#" ++ toString id

namespace Fn

/-- A function value is written by position when no table is at hand. -/
def text : Fn → String
  | .primitive id => "fn#" ++ toString id
  | .compose outer inner => "compose(" ++ outer.text ++ ", " ++ inner.text ++ ")"

/-- The positions that a function value names, the outer function's first. -/
def primitives : Fn → List PrimId
  | .primitive id => [id]
  | .compose outer inner => outer.primitives ++ inner.primitives

end Fn

namespace Value

/-- A list is written in brackets. -/
def text : Value → String
  | .int n => toString n
  | .bool b => Text.ofBool b
  | .list xs => "[" ++ Text.commas (xs.map toString) ++ "]"
  | .func f => f.text

/-- The type of a value that is plain data. -/
def plainTy? : Value → Option Ty
  | .int _ => some .int
  | .bool _ => some .bool
  | .list _ => some .list
  | .func _ => none

def integers : Value → List Int
  | .int n => [n]
  | .list xs => xs
  | _ => []

def int? : Value → Option Int
  | .int n => some n
  | _ => none

def bool? : Value → Option Bool
  | .bool b => some b
  | _ => none

def list? : Value → Option (List Int)
  | .list xs => some xs
  | _ => none

def func? : Value → Option Fn
  | .func f => some f
  | _ => none

/-- Values in parentheses, separated by commas. -/
def tupleText (vs : List Value) : String := "(" ++ Text.commas (vs.map text) ++ ")"

end Value

end Exemplar
