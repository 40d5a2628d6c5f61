/-!
# Time budgets

A search looks at its clock at fixed points. What matters of a clock is only which of these readings
find the budget used up, so a clock is the sequence of its readings.
-/

namespace Exemplar

/-- A span of time in nanoseconds. -/
structure Duration where
  nanos : Nat
  deriving Inhabited, Repr, DecidableEq

namespace Duration

/-- The nanoseconds of a second. -/
def second : Nat := 1000000000

def ofSeconds (n : Nat) : Duration := ⟨n * second⟩

def seconds (d : Duration) : Nat := d.nanos / second

/-- The nanoseconds beyond the whole seconds. -/
def subsecond (d : Duration) : Nat := d.nanos % second

/-- The span of seconds and nanoseconds, if its seconds fit sixty-four bits. -/
def ofParts? (seconds nanos : Nat) : Option Duration :=
  let d : Duration := ⟨seconds * second + nanos⟩
  if d.seconds ≤ 18446744073709551615 then some d else none

def milliseconds (d : Duration) : Float :=
  (Float.ofNat d.seconds + Float.ofNat d.subsecond / 1e9) * 1000.0

end Duration

/-- Whether the budget is used up at each reading, counted from zero. -/
abbrev Clock := Nat → Bool

/-- The clock of a run that takes no measurable time: a budget of at most one nanosecond is used up
from the start, every other one never. -/
def Duration.clock (budget : Duration) : Clock := fun _ => budget.nanos ≤ 1

end Exemplar
