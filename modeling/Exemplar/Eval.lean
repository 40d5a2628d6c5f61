import Exemplar.Primitive

/-!
# Evaluation

A term is evaluated strictly, arguments from the left, with one exception: of a conditional only the
chosen branch is evaluated. Two limits make every evaluation end: the iteration of `fix` is capped,
and calls nest only so deep. The depth of calls is counted down, so that evaluation is a recursion
on the number of levels that are left; within a level it is a recursion on the term.
-/

namespace Exemplar

/-! ## Faults -/

/-- Why an evaluation has no value. -/
inductive Fault where
  | divisionByZero
  | overflow
  | emptyList
  | unboundVariable (index : Nat)
  | unknownPrimitive (id : PrimId)
  | notAFunction
  | arity (name : String) (expected actual : Nat)
  | fixpointDiverged (cap : Nat)
  | callDepthExceeded (limit : Nat)
  | illTyped (expected : Ty) (got : Value)
  /-- An operation reads an argument that it was not given. The program as a whole ends there. -/
  | missingArgument (index length : Nat)
  deriving Inhabited, Repr, DecidableEq

namespace Fault

/-- Whether the fault suggests a program that does not end, and not a failure of its own. -/
def nonTermination : Fault → Bool
  | .fixpointDiverged _ => true
  | .callDepthExceeded _ => true
  | _ => false

def message : Fault → String
  | .divisionByZero => "division by zero"
  | .overflow => "integer overflow"
  | .emptyList => "empty list"
  | .unboundVariable i => "unbound variable x" ++ toString i
  | .unknownPrimitive id => "unknown primitive " ++ primText id
  | .notAFunction => "value is not a function"
  | .arity name expected actual =>
    name ++ " expects " ++ toString expected ++ " arguments, got " ++ toString actual
  | .fixpointDiverged cap => "fixpoint not reached within " ++ toString cap ++ " iterations"
  | .callDepthExceeded limit => "call depth exceeded " ++ toString limit
  | .illTyped expected got => "type error: expected " ++ expected.text ++ ", got " ++ got.text
  | .missingArgument i n =>
    "index out of bounds: the len is " ++ toString n ++ " but the index is " ++ toString i

end Fault

/-- What an evaluation ends in. -/
abbrev Result (α : Type) := Except Fault α

/-! ## Operands -/

namespace Value

def toInt : Value → Result Int
  | .int n => .ok n
  | v => .error (.illTyped .int v)

def toBool : Value → Result Bool
  | .bool b => .ok b
  | v => .error (.illTyped .bool v)

def toInts : Value → Result (List Int)
  | .list xs => .ok xs
  | v => .error (.illTyped .list v)

def toFn : Value → Result Fn
  | .func f => .ok f
  | _ => .error .notAFunction

end Value

/-! ## Arguments

A table declares how many arguments an operation takes, and need not declare what the operation reads.
Arguments that it does not read are ignored. -/

section arguments

variable (args : List Value) (i : Nat)

def argument : Result Value :=
  match args[i]? with
  | some v => .ok v
  | none => .error (.missingArgument i args.length)

def intArg : Result Int := argument args i >>= Value.toInt

def boolArg : Result Bool := argument args i >>= Value.toBool

def intsArg : Result (List Int) := argument args i >>= Value.toInts

def fnArg : Result Fn := argument args i >>= Value.toFn

/-- The last argument, and those before it. -/
def popArg : Result (Value × List Value) :=
  match args.getLast? with
  | some v => .ok (v, args.dropLast)
  | none => .error .notAFunction

end arguments

/-! ## Limits and machines -/

/-- The bounds of an evaluation. -/
structure Limits where
  /-- How often `fix` may iterate. -/
  fixCap : Nat
  /-- How deep calls of functions and learned primitives may nest. -/
  callDepth : Nat
  deriving Inhabited, Repr, DecidableEq

/-- A hundred iterations and sixty-four nested calls. -/
def Limits.standard : Limits := ⟨100, 64⟩

/-- Whether an integer fits into sixty-four signed bits. -/
def fitsWord (n : Int) : Bool := -9223372036854775808 ≤ n && n ≤ 9223372036854775807

/-- What an evaluation refers to. -/
structure Machine where
  table : Table
  limits : Limits
  /-- The integers that arithmetic may return; all others overflow. -/
  fits : Int → Bool

/-- The machine of a table whose arithmetic has sixty-four signed bits. -/
def Table.machine (t : Table) (limits : Limits) : Machine := ⟨t, limits, fitsWord⟩

namespace Machine

/-! ## One operation -/

/-- How an operation calls a function value. -/
abbrev Caller := Fn → List Value → Result Value

/-- The result of arithmetic, if it fits. -/
def checked (m : Machine) (n : Int) : Result Value :=
  if m.fits n then .ok (.int n) else .error .overflow

/-- Applies `f` until it returns its argument, at most `n` times. -/
def iterate (m : Machine) (call : Caller) (f : Fn) : Nat → Int → Result Value
  | 0, _ => .error (.fixpointDiverged m.limits.fixCap)
  | n + 1, x => do
    let y ← (← call f [.int x]).toInt
    if y = x then return .int x else m.iterate call f n y

/-- The images of the members, from the left. -/
def mapInts (call : Caller) (f : Fn) : List Int → Result (List Int)
  | [] => .ok []
  | x :: xs => do
    let y ← (← call f [.int x]).toInt
    let ys ← mapInts call f xs
    return y :: ys

/-- The members that `f` holds of, from the left. -/
def filterInts (call : Caller) (f : Fn) : List Int → Result (List Int)
  | [] => .ok []
  | x :: xs => do
    let keep ← (← call f [.int x]).toBool
    let ys ← filterInts call f xs
    return if keep then x :: ys else ys

/-- Combines the members from the left. -/
def foldInts (call : Caller) (f : Fn) : Int → List Int → Result Int
  | acc, [] => .ok acc
  | acc, x :: xs => do
    let next ← (← call f [.int acc, .int x]).toInt
    foldInts call f next xs

/-- The result of a builtin operation on evaluated arguments. Division is toward zero and its
remainder is never negative; the second operand of `and` and `or` is looked at only if the first
does not decide. The branches of a conditional are its last two arguments. -/
def builtin (m : Machine) (call : Caller) (op : Builtin) (args : List Value) : Result Value :=
  match op with
  | .add => do m.checked ((← intArg args 0) + (← intArg args 1))
  | .sub => do m.checked ((← intArg args 0) - (← intArg args 1))
  | .mul => do m.checked ((← intArg args 0) * (← intArg args 1))
  | .div => do
    let x ← intArg args 0
    let y ← intArg args 1
    if y = 0 then throw .divisionByZero else m.checked (x.tdiv y)
  | .mod => do
    let x ← intArg args 0
    let y ← intArg args 1
    if y = 0 then throw .divisionByZero
    else if m.fits (x.tdiv y) then return .int (x.emod y)
    else throw .overflow
  | .neg => do m.checked (-(← intArg args 0))
  | .eq => do return .bool ((← intArg args 0) = (← intArg args 1))
  | .lt => do return .bool ((← intArg args 0) < (← intArg args 1))
  | .gt => do return .bool ((← intArg args 0) > (← intArg args 1))
  | .and => do
    let p ← boolArg args 0
    if p then return .bool (← boolArg args 1) else return .bool false
  | .or => do
    let p ← boolArg args 0
    if p then return .bool true else return .bool (← boolArg args 1)
  | .not => do return .bool (!(← boolArg args 0))
  | .cond => do
    let (b, rest) ← popArg args
    let (a, rest) ← popArg rest
    let p ← boolArg rest 0
    return if p then a else b
  | .identity => do return .int (← intArg args 0)
  | .compose => do
    let outer ← fnArg args 0
    let inner ← fnArg args 1
    return .func (.compose outer inner)
  | .fix => do
    let f ← fnArg args 0
    let x ← intArg args 1
    m.iterate call f m.limits.fixCap x
  | .map => do
    let f ← fnArg args 0
    let xs ← intsArg args 1
    return .list (← mapInts call f xs)
  | .filter => do
    let f ← fnArg args 0
    let xs ← intsArg args 1
    return .list (← filterInts call f xs)
  | .fold => do
    let f ← fnArg args 0
    let x ← intArg args 1
    let xs ← intsArg args 2
    return .int (← foldInts call f x xs)
  | .head => do
    match ← intsArg args 0 with
    | [] => throw .emptyList
    | x :: _ => return .int x
  | .tail => do
    match ← intsArg args 0 with
    | [] => throw .emptyList
    | _ :: xs => return .list xs
  | .cons => do
    let xs ← intsArg args 1
    let x ← intArg args 0
    return .list (x :: xs)
  | .length => do return .int (← intsArg args 0).length

/-! ## Terms -/

mutual

/-- The value of a term, given how primitives are applied. -/
def evalWith (m : Machine) (apply : PrimId → List Value → Result Value) (inputs : List Value) :
    Term → Result Value
  | .lit v => .ok v
  | .var i =>
    match inputs[i]? with
    | some v => .ok v
    | none => .error (.unboundVariable i)
  | .apply id args =>
    if m.table.conditional id then
      match args with
      | [c, a, b] => do
        let p ← (← m.evalWith apply inputs c).toBool
        if p then m.evalWith apply inputs a else m.evalWith apply inputs b
      | _ => .error (.arity Builtin.cond.name 3 args.length)
    else do
      apply id (← m.evalsWith apply inputs args)

def evalsWith (m : Machine) (apply : PrimId → List Value → Result Value) (inputs : List Value) :
    List Term → Result (List Value)
  | [] => .ok []
  | e :: es => do
    let v ← m.evalWith apply inputs e
    let vs ← m.evalsWith apply inputs es
    return v :: vs

end

/-! ## Calls -/

/-- Applies a primitive, given how calls one level below are made. -/
def applyWith (m : Machine) (call : Caller) (id : PrimId) (args : List Value) : Result Value :=
  match m.table.get? id with
  | none => .error (.unknownPrimitive id)
  | some p =>
    if args.length = p.arity then
      match p.rule with
      | .builtin op => m.builtin call op args
      | .learned body => m.evalWith (fun i => call (.primitive i)) args body
    else .error (.arity p.name p.arity args.length)

/-- Calls a function value with a number of levels left. A primitive takes one level; so does each
nesting of compositions, for both of its functions. -/
def callAt (m : Machine) : Nat → Caller
  | 0, _, _ => .error (.callDepthExceeded m.limits.callDepth)
  | n + 1, .primitive id, args => m.applyWith (m.callAt n) id args
  | n + 1, .compose outer inner, args => do
    let mid ← m.callAt n inner args
    m.callAt n outer [mid]

def applyAt (m : Machine) (n : Nat) (id : PrimId) (args : List Value) : Result Value :=
  m.callAt n (.primitive id) args

/-- The value of a term with a number of levels left. -/
def evalAt (m : Machine) (n : Nat) (inputs : List Value) (e : Term) : Result Value :=
  m.evalWith (m.applyAt n) inputs e

/-- The value of a program on inputs. -/
def eval (m : Machine) (e : Term) (inputs : List Value) : Result Value :=
  m.evalAt (m.limits.callDepth + 1) inputs e

def apply (m : Machine) (id : PrimId) (args : List Value) : Result Value :=
  m.applyAt (m.limits.callDepth + 1) id args

/-- Calls a function value; it stands one level below the program. -/
def call (m : Machine) (f : Fn) (args : List Value) : Result Value :=
  m.callAt m.limits.callDepth f args

end Machine

end Exemplar
