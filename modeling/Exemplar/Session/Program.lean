import Exemplar.Verification.Verify

/-!
# Synthesized programs

A program that was returned to a caller, with the table in which it was found. The table is kept as
it was, so that capabilities that are learned later do not change what the program computes.
-/

namespace Exemplar

/-- A program with all that it refers to. -/
structure Program where
  term : Term
  size : Nat
  signature : Signature
  strategy : String
  /-- What came out of its verification, if it was verified. -/
  certificate : Option Certificate
  table : Table
  limits : Limits
  deriving Inhabited

namespace Program

def rendering (p : Program) : String := p.term.render p.table

/-- The value of the program on inputs. -/
def call (p : Program) (inputs : List Value) : Result Value :=
  (p.table.machine p.limits).eval p.term inputs

def verified (p : Program) : Bool :=
  match p.certificate with
  | some c => c.verified
  | none => false

def verdict (p : Program) : String := (p.certificate.map Certificate.verdict).getD "unchecked"

def text (p : Program) : String :=
  p.rendering ++ " [size " ++ toString p.size ++ ", " ++ p.strategy ++ ", " ++ p.verdict ++ "]"

/-- Accepts nothing but a verified program. -/
def require (p : Program) : Except Shortfall Unit :=
  match p.certificate with
  | some c => c.require
  | none => .error (.neverChecked p.rendering)

end Program

end Exemplar
