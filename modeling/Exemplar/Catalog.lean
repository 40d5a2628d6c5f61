import Exemplar.Error
import Exemplar.Probe

/-!
# The catalog of capabilities

A catalog starts from builtin operations and grows by capabilities, which are programs under a name
of their own. A program that behaves like a primitive of the same signature on the probe inputs is
not taken in.
-/

namespace Exemplar

/-- Primitives of which the first are seeds and the others were learned. -/
structure Catalog where
  table : Table
  /-- The number of primitives that were there from the start. -/
  seeds : Nat
  /-- The greatest number of probe tuples on which primitives are compared. -/
  probeLimit : Nat
  /-- The bounds of the evaluations that compare them. -/
  limits : Limits
  deriving Inhabited

/-- What became of a capability that was offered. -/
inductive Admission where
  /-- It is the primitive at a position now. -/
  | admitted (id : PrimId)
  /-- The primitive at a position does the same. -/
  | duplicate (existing : PrimId)
  deriving Inhabited, Repr, DecidableEq

namespace Admission

/-- The position of the primitive that does what was offered. -/
def id : Admission → PrimId
  | .admitted id => id
  | .duplicate existing => existing

def isAdmitted : Admission → Bool
  | .admitted _ => true
  | .duplicate _ => false

end Admission

namespace Catalog

/-- The number of probe tuples where nothing else is asked for. -/
def standardProbeLimit : Nat := 64

/-- The catalog of some builtin operations. At least one probe tuple is used. -/
def ofBuiltins (bs : List Builtin) (probeLimit : Nat) (limits : Limits) : Catalog :=
  ⟨.ofBuiltins bs, bs.length, max probeLimit 1, limits⟩

def size (c : Catalog) : Nat := c.table.size

/-- The learned primitives in the order of their admission. -/
def learned (c : Catalog) : List Primitive := c.table.toList.drop c.seeds

/-- The table of the seeds alone. -/
def seedTable (c : Catalog) : Table := ⟨(c.table.toList.take c.seeds).toArray⟩

def names (c : Catalog) : List String := c.table.toList.map Primitive.name

def machine (c : Catalog) : Machine := c.table.machine c.limits

/-- Whether a primitive does on every probe tuple what a program does; where both fail they
agree. Without probe tuples only a primitive with the same body does the same. -/
def behavesLike (c : Catalog) (probes : List (List Value)) (outputs : List (Option Value))
    (body : Term) (p : Primitive) : Bool :=
  if probes.isEmpty then p.body? == some body
  else
    (probes.zip outputs).all (fun row => (c.machine.apply p.id row.1).toOption == row.2)

/-- The first primitive of a signature that does what a program does. -/
def findEquivalent? (c : Catalog) (signature : Signature) (body : Term) : Option PrimId :=
  let probes := Probe.inputs signature.params c.probeLimit
  let outputs := probes.map (fun row => (c.machine.eval body row).toOption)
  (c.table.toList.find?
    (fun p => p.signature == signature && c.behavesLike probes outputs body p)).map Primitive.id

/-- Checks that a name is free and that a body has its declared type. -/
def check (c : Catalog) (name : String) (signature : Signature) (body : Term) :
    Except Error Unit := do
  if (c.table.find? name).isSome then throw (.duplicateName name)
  else
    let actual ← Error.lift .illTyped (body.infer c.table signature.params)
    if actual = signature.ret then return ()
    else throw (.bodyType name actual signature.ret)

def append (c : Catalog) (name : String) (signature : Signature) (body : Term) (cost : Nat) :
    Catalog :=
  { c with table := c.table.push (.ofBody c.size name signature body cost) }

def register (c : Catalog) (name : String) (signature : Signature) (body : Term) (cost : Nat) :
    Except Error (Admission × Catalog) := do
  c.check name signature body
  match c.findEquivalent? signature body with
  | some existing => return (.duplicate existing, c)
  | none => return (.admitted c.size, c.append name signature body cost)

/-! ## Names of capabilities -/

def capabilityName (n : Nat) : String := "learned_" ++ toString n

/-- The first free name from a number on, found by looking up at most `tries` names. -/
def freeNameFrom (c : Catalog) : (tries n : Nat) → String
  | 0, n => capabilityName n
  | tries + 1, n =>
    if (c.table.find? (capabilityName n)).isSome then c.freeNameFrom tries (n + 1)
    else capabilityName n

/-- A name that no primitive has. Of as many names as there are primitives and one more, at least
one is free. -/
def freeName (c : Catalog) : String := c.freeNameFrom c.size (c.learned.length + 1)

end Catalog

end Exemplar
