import Exemplar.Error
import Exemplar.Probe
import Exemplar.Verification.Paths
import Exemplar.Verification.Reach

/-!
# Verification

A program goes through four checks: it reproduces every example, it has the wanted type, every
branch is exercised by an example, and iteration ends on the examples and on the probe inputs. The
first two are mandatory. If one of them fails, the others are skipped; the others never fail, they
only lower the confidence.
-/

namespace Exemplar

/-- A check that went well or badly, and what is to be noted about it. -/
structure Finding where
  record : CheckRecord
  notes : List String
  deriving Inhabited, Repr, DecidableEq

namespace Verification

/-! ## Mandatory checks -/

/-- What a program does on the inputs of an example, if it is not what the example asks for. -/
def mismatch? (m : Machine) (e : Term) (ex : Example) : Option Counterexample :=
  match m.eval e ex.inputs with
  | .ok v => if v = ex.output then none else some ⟨ex.inputs, ex.output, .value v⟩
  | .error f => some ⟨ex.inputs, ex.output, .failure f.message⟩

def counterexample? (m : Machine) (examples : List Example) (e : Term) : Option Counterexample :=
  examples.findSome? (mismatch? m e)

def replay (m : Machine) (examples : List Example) (e : Term) : CheckRecord :=
  match counterexample? m examples e with
  | some cx => ⟨.replay, .failed, "mismatch on " ++ cx.text⟩
  | none => ⟨.replay, .passed, toString examples.length ++ " examples reproduced"⟩

/-- The comparison of a program's type with the wanted one. -/
def typing (t : Table) (signature : Signature) (e : Term) : CheckRecord :=
  match e.infer t signature.params with
  | .ok ty =>
    if ty = signature.ret then ⟨.typing, .passed, "well-typed as " ++ signature.text⟩
    else
      ⟨.typing, .failed, "result type " ++ ty.text ++ " does not match " ++ signature.ret.text⟩
  | .error cause => ⟨.typing, .failed, (Error.illTyped cause).message⟩

/-! ## Bounded checks -/

/-- The exploration of the branches of a program. -/
def paths (m : Machine) (budget : Nat) (signature : Signature) (examples : List Example)
    (e : Term) : Finding :=
  if (e.sites m.table).isEmpty then ⟨⟨.paths, .passed, "no conditionals"⟩, []⟩
  else
    let r := PathReport.explore m budget signature.ret examples e
    ⟨⟨.paths, if r.clean then .passed else .downgraded, r.text⟩, r.notes⟩

/-- Whether a program is cut off on inputs. -/
def diverges (m : Machine) (e : Term) (inputs : List Value) : Bool :=
  match m.eval e inputs with
  | .ok _ => false
  | .error f => f.nonTermination

/-- The inputs on which termination is looked at. -/
def trials (probeLimit : Nat) (signature : Signature) (examples : List Example) :
    List (List Value) :=
  examples.map Example.inputs ++ Probe.inputs signature.params probeLimit

/-- The evaluation of a program that iterates, on the examples and on the probe inputs. -/
def termination (m : Machine) (probeLimit : Nat) (signature : Signature)
    (examples : List Example) (e : Term) : Finding :=
  let inputs := trials probeLimit signature examples
  if !e.reachesFix m.table then ⟨⟨.termination, .passed, "no fixpoint"⟩, []⟩
  else
    match inputs.filter (diverges m e) with
    | [] =>
      ⟨⟨.termination, .passed,
        "fixpoint converged within " ++ toString m.limits.fixCap ++ " iterations on " ++
          toString inputs.length ++ " inputs"⟩, []⟩
    | first :: rest =>
      ⟨⟨.termination, .downgraded,
        "iteration cap " ++ toString m.limits.fixCap ++ " exceeded on " ++
          toString (rest.length + 1) ++ " of " ++ toString inputs.length ++ " inputs"⟩,
        ["iteration cap exceeded on input " ++ Value.tupleText first]⟩

def skipped (check : Check) : Finding := ⟨⟨check, .skipped, "mandatory check failed"⟩, []⟩

/-! ## The certificate -/

def passed (r : CheckRecord) : Bool := r.outcome == .passed

/-- What a check leaves of the confidence. -/
def factor (r : CheckRecord) : Float :=
  match r.check, r.outcome with
  | .paths, .downgraded => 0.75
  | .termination, .downgraded => 0.5
  | _, _ => 1.0

def confidence (checks : List CheckRecord) : Float := checks.foldl (fun c r => c * factor r) 1.0

/-- Verifies a program against a problem. -/
def verify (t : Table) (s : Settings) (signature : Signature) (examples : List Example)
    (e : Term) : Certificate :=
  let m := t.machine s.limits
  let mandatory := [replay m examples e, typing t signature e]
  let admissible := mandatory.all passed
  let bounded :=
    if admissible then
      [paths m (max s.pathBudget 1) signature examples e,
        termination m (max s.probeLimit 1) signature examples e]
    else [skipped .paths, skipped .termination]
  let checks := mandatory ++ bounded.map Finding.record
  { verified := checks.all passed
    admissible
    method := if admissible then .bounded else .replay
    confidence := if admissible then confidence checks else 0.0
    counterexample := counterexample? m examples e
    notes := bounded.flatMap Finding.notes
    checks }

/-- Whether two programs agree on all inputs; on inputs where both fail they agree. -/
def equivalentOn (t : Table) (s : Settings) (a b : Term) (inputs : List (List Value)) : Bool :=
  let m := t.machine s.limits
  inputs.all (fun row => (m.eval a row).toOption == (m.eval b row).toOption)

end Verification

end Exemplar
