import Exemplar.Term

/-!
# Primitives

The operations a program may apply: the builtin ones, and learned ones whose body is a term over
their parameters. A table lists primitives by position; programs refer to them by that position.
-/

namespace Exemplar

/-! ## Builtin operations -/

/-- The operations that need no body. -/
inductive Builtin where
  | add | sub | mul | div | mod | neg
  | eq | lt | gt
  | and | or | not
  | cond | identity | compose | fix
  | map | filter | fold
  | head | tail | cons | length
  deriving Inhabited, Repr, DecidableEq, Hashable

namespace Builtin

/-- All builtin operations in registration order. -/
def all : List Builtin :=
  [.add, .sub, .mul, .div, .mod, .neg, .eq, .lt, .gt, .and, .or, .not, .cond, .identity, .compose,
    .fix, .map, .filter, .fold, .head, .tail, .cons, .length]

def name : Builtin → String
  | .add => "add"
  | .sub => "sub"
  | .mul => "mul"
  | .div => "div"
  | .mod => "mod"
  | .neg => "neg"
  | .eq => "eq"
  | .lt => "lt"
  | .gt => "gt"
  | .and => "and"
  | .or => "or"
  | .not => "not"
  | .cond => "if"
  | .identity => "identity"
  | .compose => "compose"
  | .fix => "fix"
  | .map => "map"
  | .filter => "filter"
  | .fold => "fold"
  | .head => "head"
  | .tail => "tail"
  | .cons => "cons"
  | .length => "length"

def ofName? (s : String) : Option Builtin := all.find? (fun b => b.name == s)

/-- Functions from an integer to an integer. -/
def intUnary : Ty := .func [.int] .int

/-- Functions from two integers to an integer. -/
def intBinary : Ty := .func [.int, .int] .int

/-- Functions from an integer to a boolean. -/
def intPredicate : Ty := .func [.int] .bool

/-- What a builtin operation takes and returns. -/
def signature : Builtin → Signature
  | .add | .sub | .mul | .div | .mod => ⟨[.int, .int], .int⟩
  | .neg | .identity => ⟨[.int], .int⟩
  | .eq | .lt | .gt => ⟨[.int, .int], .bool⟩
  | .and | .or => ⟨[.bool, .bool], .bool⟩
  | .not => ⟨[.bool], .bool⟩
  | .cond => ⟨[.bool, .int, .int], .int⟩
  | .compose => ⟨[intUnary, intUnary], intUnary⟩
  | .fix => ⟨[intUnary, .int], .int⟩
  | .map => ⟨[intUnary, .list], .list⟩
  | .filter => ⟨[intPredicate, .list], .list⟩
  | .fold => ⟨[intBinary, .int, .list], .int⟩
  | .head => ⟨[.list], .int⟩
  | .tail => ⟨[.list], .list⟩
  | .cons => ⟨[.int, .list], .list⟩
  | .length => ⟨[.list], .int⟩

/-- What an application of the operation weighs. -/
def cost : Builtin → Nat
  | .cond | .compose | .map | .filter | .fold => 2
  | .fix => 3
  | _ => 1

end Builtin

/-! ## Primitives and tables -/

/-- How a primitive computes its result. -/
inductive Rule where
  | builtin (b : Builtin)
  /-- A program whose variable `i` is the primitive's argument `i`. -/
  | learned (body : Term)
  deriving Inhabited, Repr, DecidableEq

/-- A named operation with a fixed number of parameters. -/
structure Primitive where
  id : PrimId
  name : String
  signature : Signature
  rule : Rule
  /-- What an application weighs. -/
  cost : Nat
  deriving Inhabited, Repr, DecidableEq

namespace Primitive

/-- The builtin operation `b` at a position. -/
def ofBuiltin (id : PrimId) (b : Builtin) : Primitive :=
  ⟨id, b.name, b.signature, .builtin b, b.cost⟩

/-- A learned primitive at a position; it weighs at least one. -/
def ofBody (id : PrimId) (name : String) (signature : Signature) (body : Term) (cost : Nat) :
    Primitive :=
  ⟨id, name, signature, .learned body, max cost 1⟩

def arity (p : Primitive) : Nat := p.signature.arity

def builtin? (p : Primitive) : Option Builtin :=
  match p.rule with
  | .builtin b => some b
  | .learned _ => none

def body? (p : Primitive) : Option Term :=
  match p.rule with
  | .builtin _ => none
  | .learned body => some body

/-- A primitive is written as its name and its type. -/
def text (p : Primitive) : String := p.name ++ " : " ++ p.signature.text

end Primitive

/-- Primitives by position. -/
structure Table where
  entries : Array Primitive
  deriving Inhabited, Repr, DecidableEq

namespace Table

def empty : Table := ⟨#[]⟩

def size (t : Table) : Nat := t.entries.size

/-- The primitives in registration order. -/
def toList (t : Table) : List Primitive := t.entries.toList

def get? (t : Table) (id : PrimId) : Option Primitive := t.entries[id]?

/-- The first primitive of a name. -/
def find? (t : Table) (name : String) : Option Primitive :=
  t.toList.find? (fun p => p.name == name)

def push (t : Table) (p : Primitive) : Table := ⟨t.entries.push p⟩

/-- The table with a builtin operation at its end. -/
def pushBuiltin (t : Table) (b : Builtin) : Table := t.push (.ofBuiltin t.size b)

/-- The table of some builtin operations, each at its place in the list. -/
def ofBuiltins (bs : List Builtin) : Table := bs.foldl pushBuiltin empty

def builtins : Table := ofBuiltins Builtin.all

def builtin? (t : Table) (id : PrimId) : Option Builtin := (t.get? id).bind Primitive.builtin?

/-- Whether the primitive at a position is the conditional. -/
def conditional (t : Table) (id : PrimId) : Bool := t.builtin? id == some .cond

/-- What an application of a position weighs: its primitive's cost, or one where there is none. -/
def cost (t : Table) (id : PrimId) : Nat := ((t.get? id).map Primitive.cost).getD 1

/-- The name at a position, or the text of the position where there is none. -/
def nameOf (t : Table) (id : PrimId) : String := ((t.get? id).map Primitive.name).getD (primText id)

end Table

/-! ## Terms over a table -/

/-- The weighted size of a term. -/
def Term.size (t : Table) (e : Term) : Nat := e.weight t.cost

/-- A function value written with the names of a table. -/
def Fn.render (t : Table) : Fn → String
  | .primitive id => t.nameOf id
  | .compose outer inner => "compose(" ++ outer.render t ++ ", " ++ inner.render t ++ ")"

/-- A value written with the names of a table. -/
def Value.render (t : Table) : Value → String
  | .func f => f.render t
  | v => v.text

mutual

/-- A term written with the names of a table, arguments in parentheses. -/
def Term.render (t : Table) : Term → String
  | .lit v => v.render t
  | .var i => "x" ++ toString i
  | .apply id args => t.nameOf id ++ "(" ++ Text.commas (Term.renders t args) ++ ")"

def Term.renders (t : Table) : List Term → List String
  | [] => []
  | e :: es => e.render t :: Term.renders t es

end

end Exemplar
