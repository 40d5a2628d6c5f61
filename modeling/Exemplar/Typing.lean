import Exemplar.Primitive

/-!
# Typing

The type of a term over a table, given the types of the input variables. Every application is
checked against the declared signature of its primitive; a learned body is not looked into.
-/

namespace Exemplar

/-- Why a term has no type. -/
inductive TypeError where
  | variableOutOfRange (index inputs : Nat)
  | arity (name : String) (expected actual : Nat)
  | argument (name : String) (index : Nat) (expected actual : Ty)
  | composition (outer inner : Ty)
  | unknownPrimitive (id : PrimId)
  deriving Inhabited, Repr, DecidableEq

def TypeError.message : TypeError → String
  | .variableOutOfRange i n =>
    "variable x" ++ toString i ++ " out of range for " ++ toString n ++ " inputs"
  | .arity name expected actual =>
    name ++ " expects " ++ toString expected ++ " arguments, got " ++ toString actual
  | .argument name i expected actual =>
    name ++ " argument " ++ toString i ++ " expects " ++ expected.text ++ ", got " ++ actual.text
  | .composition outer inner => "cannot compose " ++ outer.text ++ " after " ++ inner.text
  | .unknownPrimitive id => primText id

/-- The signature of a function value. The outer function of a composition takes exactly what the
inner one returns. -/
def Fn.infer (t : Table) : Fn → Except TypeError Signature
  | .primitive id =>
    match t.get? id with
    | some p => .ok p.signature
    | none => .error (.unknownPrimitive id)
  | .compose outer inner => do
    let o ← outer.infer t
    let i ← inner.infer t
    if o.params = [i.ret] then return ⟨i.params, o.ret⟩
    else throw (.composition o.asTy i.asTy)

def Value.infer (t : Table) : Value → Except TypeError Ty
  | .int _ => .ok .int
  | .bool _ => .ok .bool
  | .list _ => .ok .list
  | .func f => Signature.asTy <$> f.infer t

mutual

/-- The type of a term whose variables have the types `inputs`. -/
def Term.infer (t : Table) (inputs : List Ty) : Term → Except TypeError Ty
  | .lit v => v.infer t
  | .var i =>
    match inputs[i]? with
    | some ty => .ok ty
    | none => .error (.variableOutOfRange i inputs.length)
  | .apply id args =>
    match t.get? id with
    | none => .error (.unknownPrimitive id)
    | some p =>
      if args.length = p.arity then do
        Term.checkArgs t inputs p.name 0 args p.signature.params
        return p.signature.ret
      else .error (.arity p.name p.arity args.length)

/-- Checks the arguments of `name` from index `i` on against the parameters that they are for. -/
def Term.checkArgs (t : Table) (inputs : List Ty) (name : String) (i : Nat) :
    List Term → List Ty → Except TypeError Unit
  | e :: es, expected :: rest => do
    let actual ← e.infer t inputs
    if actual = expected then Term.checkArgs t inputs name (i + 1) es rest
    else throw (.argument name i expected actual)
  | _, _ => .ok ()

end

/-- An application that is checked before it is built. -/
def Term.checkedApply (t : Table) (inputs : List Ty) (id : PrimId) (args : List Term) :
    Except TypeError Term := do
  let e := Term.apply id args
  let _ ← e.infer t inputs
  return e

end Exemplar
