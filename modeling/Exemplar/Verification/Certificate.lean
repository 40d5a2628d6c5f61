import Exemplar.Decimal.Fixed
import Exemplar.Value

/-!
# Certificates

What came out of verifying a program: the checks in their order, a counterexample if replay failed,
and a verdict. A program is admissible if the mandatory checks pass and verified if all do.
-/

namespace Exemplar

/-- The checks that a program goes through, in this order. -/
inductive Check where
  | replay
  | typing
  | paths
  | termination
  deriving Inhabited, Repr, DecidableEq

namespace Check

def all : List Check := [.replay, .typing, .paths, .termination]

def label : Check → String
  | .replay => "example replay"
  | .typing => "type consistency"
  | .paths => "path exploration"
  | .termination => "termination bound"

/-- Whether a program that fails the check is inadmissible. -/
def mandatory : Check → Bool
  | .replay => true
  | .typing => true
  | _ => false

end Check

inductive Outcome where
  | passed
  | failed
  /-- The check ran and could not establish its property; only confidence is lowered. -/
  | downgraded
  | skipped
  deriving Inhabited, Repr, DecidableEq

def Outcome.mark : Outcome → String
  | .passed => "+"
  | .failed => "x"
  | .downgraded => "~"
  | .skipped => "-"

structure CheckRecord where
  check : Check
  outcome : Outcome
  detail : String
  deriving Inhabited, Repr, DecidableEq

def CheckRecord.text (r : CheckRecord) : String :=
  "[" ++ r.outcome.mark ++ "] " ++ r.check.label ++ ": " ++ r.detail

/-- How far verification got. -/
inductive Method where
  /-- A mandatory check failed, and the bounded checks did not run. -/
  | replay
  /-- All checks ran. -/
  | bounded
  deriving Inhabited, Repr, DecidableEq

/-- What a program did on an input. -/
inductive Actual where
  | value (v : Value)
  | failure (message : String)
  deriving Inhabited, Repr, DecidableEq

/-- An input on which a program disagrees with an example. -/
structure Counterexample where
  inputs : List Value
  expected : Value
  actual : Actual
  deriving Inhabited, Repr, DecidableEq

def Counterexample.text (c : Counterexample) : String :=
  Value.tupleText c.inputs ++ " expected " ++ c.expected.text ++
    match c.actual with
    | .value v => ", got " ++ v.text
    | .failure message => ", failed: " ++ message

/-- The outcome of verifying a program. -/
structure Certificate where
  verified : Bool
  admissible : Bool
  method : Method
  confidence : Float
  counterexample : Option Counterexample
  notes : List String
  checks : List CheckRecord
  deriving Inhabited

/-- Why a program does not count as verified. -/
inductive Shortfall where
  | suspectedNonTermination (detail : String)
  | notVerified (verdict : String) (counterexample : Option Counterexample)
  | neverChecked (program : String)
  deriving Inhabited, Repr, DecidableEq

def Shortfall.message : Shortfall → String
  | .suspectedNonTermination detail => detail
  | .notVerified verdict none => verdict
  | .notVerified verdict (some c) => verdict ++ ", counterexample " ++ c.text
  | .neverChecked program => program ++ " was never verified"

namespace Certificate

/-- How a check went, if it is recorded. -/
def outcomeOf? (c : Certificate) (check : Check) : Option Outcome :=
  (c.checks.find? (fun r => r.check == check)).map CheckRecord.outcome

/-- What a lowered check stands for in a verdict. -/
def reason : Check → String
  | .paths => "untested branch"
  | .termination => "suspected non-termination"
  | _ => "incomplete check"

/-- The verdict: verified, rejected, or unverified for reasons. -/
def verdict (c : Certificate) : String :=
  if c.verified then "verified"
  else if !c.admissible then "rejected"
  else
    "unverified: " ++ Text.commas
      ((c.checks.filter (fun r => r.outcome == .downgraded)).map (fun r => reason r.check))

/-- The verdict with the confidence in it. -/
def text (c : Certificate) : String :=
  c.verdict ++ " (confidence " ++ Decimal.fixed 2 c.confidence ++ ")"

def lines (c : Certificate) : List String :=
  "verification certificate" :: c.checks.map (fun r => "  " ++ r.text) ++
    (c.counterexample.map (fun cx => "  counterexample: " ++ cx.text)).toList ++
    c.notes.map (fun n => "  note: " ++ n) ++ ["  verdict: " ++ c.text]

/-- The certificate as a text whose lines are all ended. -/
def document (c : Certificate) : String := String.join (c.lines.map (fun l => l ++ "\n"))

/-- Accepts nothing but a verified program. An admissible one whose termination is in doubt is
refused for that reason. -/
def require (c : Certificate) : Except Shortfall Unit :=
  let doubt := c.checks.find? (fun r => r.check == .termination && r.outcome == .downgraded)
  if c.verified then .ok ()
  else
    match c.admissible, doubt with
    | true, some r => .error (.suspectedNonTermination r.detail)
    | _, _ => .error (.notVerified c.verdict c.counterexample)

end Certificate

end Exemplar
