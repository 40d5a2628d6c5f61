import Exemplar.Value

/-!
# Problems

A problem is a list of examples. Its signature is that of the first example; all others must have
the same number of inputs and the same types.
-/

namespace Exemplar

/-- One observed behaviour: the inputs are mapped to the output. -/
structure Example where
  inputs : List Value
  output : Value
  deriving Inhabited, Repr, DecidableEq

/-- An example is written as its inputs, an arrow and its output. -/
def Example.text (e : Example) : String := Value.tupleText e.inputs ++ " -> " ++ e.output.text

/-- Why a list of examples is no problem. -/
inductive ProblemError where
  | noExamples
  | functionValue
  | inputCount (index actual expected : Nat)
  | inputType (index input : Nat) (actual expected : Ty)
  | outputType (index : Nat) (actual expected : Ty)
  deriving Inhabited, Repr, DecidableEq

def ProblemError.message : ProblemError → String
  | .noExamples => "example set is empty"
  | .functionValue => "examples must carry first-order values"
  | .inputCount i actual expected =>
    "example " ++ toString i ++ " has " ++ toString actual ++ " inputs, expected " ++
      toString expected
  | .inputType i j actual expected =>
    "example " ++ toString i ++ " input " ++ toString j ++ " is " ++ actual.text ++
      ", expected " ++ expected.text
  | .outputType i actual expected =>
    "example " ++ toString i ++ " output is " ++ actual.text ++ ", expected " ++ expected.text

namespace Problem

/-- The type of a value in an example, which must be plain data. -/
def plainTy (v : Value) : Except ProblemError Ty :=
  match v.plainTy? with
  | some ty => .ok ty
  | none => .error .functionValue

/-- Checks the inputs of example `i` from input `j` on. -/
def checkInputs (i : Nat) : Nat → List Value → List Ty → Except ProblemError Unit
  | j, v :: vs, expected :: rest => do
    let actual ← plainTy v
    if actual = expected then checkInputs i (j + 1) vs rest
    else throw (.inputType i j actual expected)
  | _, _, _ => .ok ()

def checkExample (s : Signature) (i : Nat) (e : Example) : Except ProblemError Unit := do
  if e.inputs.length = s.arity then
    checkInputs i 0 e.inputs s.params
    let actual ← plainTy e.output
    if actual = s.ret then return () else throw (.outputType i actual s.ret)
  else throw (.inputCount i e.inputs.length s.arity)

def checkExamples (s : Signature) : Nat → List Example → Except ProblemError Unit
  | _, [] => .ok ()
  | i, e :: es => do
    checkExample s i e
    checkExamples s (i + 1) es

/-- The signature that all examples share. -/
def signature : List Example → Except ProblemError Signature
  | [] => .error .noExamples
  | e :: es => do
    let params ← e.inputs.mapM plainTy
    let ret ← plainTy e.output
    checkExamples ⟨params, ret⟩ 1 es
    return ⟨params, ret⟩

end Problem

end Exemplar
