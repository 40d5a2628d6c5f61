import Exemplar.Json.Shape
import Exemplar.Primitive
import Exemplar.Problem

/-!
# Saved programs

The JSON form of types, values, terms, primitives and examples. A type without parts is its name; a
value, a function value and a term are objects named for their form.
-/

namespace Exemplar

/-! ## Types -/

namespace Ty

def ofName? : String → Option Ty
  | "Int" => some .int
  | "Bool" => some .bool
  | "List" => some .list
  | _ => none

mutual

def toJson : Ty → Json
  | .int => .str "Int"
  | .bool => .str "Bool"
  | .list => .str "List"
  | .func ps r => .tagged "Func" (.obj [("params", .arr (toJsons ps)), ("ret", r.toJson)])

def toJsons : List Ty → List Json
  | [] => []
  | p :: ps => p.toJson :: toJsons ps

end

mutual

def ofJson? : Json → Option Ty
  | .str s => ofName? s
  | .obj [(name, .null)] => ofName? name
  | .obj [("Func", .obj members)] => do
    let (params, ret) ← parts? members
    return .func (← params) (← ret)
  | _ => none

def ofJsons? : List Json → Option (List Ty)
  | [] => some []
  | j :: js => do
    let ty ← ofJson? j
    let tys ← ofJsons? js
    return ty :: tys

/-- The parameters and the result among the members of a function type, each at most once. -/
def parts? : List (String × Json) → Option (Option (List Ty) × Option Ty)
  | [] => some (none, none)
  | ("params", .arr items) :: ms => do
    let ps ← ofJsons? items
    let (params, ret) ← parts? ms
    if params.isSome then none else some (some ps, ret)
  | ("ret", v) :: ms => do
    let r ← ofJson? v
    let (params, ret) ← parts? ms
    if ret.isSome then none else some (params, some r)
  | (name, _) :: ms => if name = "params" then none else parts? ms

end

end Ty

namespace Signature

def toJson (s : Signature) : Json :=
  .obj [("params", .ofList Ty.toJson s.params), ("ret", s.ret.toJson)]

def ofJson? (j : Json) : Option Signature := do
  let fs ← j.fields? ["params", "ret"]
  return ⟨← fs.required? "params" (Json.list? Ty.ofJson?), ← fs.required? "ret" Ty.ofJson?⟩

/-- The saved form of a problem's signature. -/
def toProblemJson (s : Signature) : Json :=
  .obj [("inputs", .ofList Ty.toJson s.params), ("output", s.ret.toJson)]

/-- The signature of a saved problem. -/
def ofProblemJson? (j : Json) : Option Signature := do
  let fs ← j.fields? ["inputs", "output"]
  return ⟨← fs.required? "inputs" (Json.list? Ty.ofJson?), ← fs.required? "output" Ty.ofJson?⟩

end Signature

/-! ## Values -/

namespace Fn

def toJson : Fn → Json
  | .primitive id => .tagged "Primitive" (.nat id)
  | .compose outer inner => .tagged "Compose" (.arr [outer.toJson, inner.toJson])

def ofJson? : Json → Option Fn
  | .obj [("Primitive", id)] => id.index?.map .primitive
  | .obj [("Compose", .arr [outer, inner])] => do
    let o ← ofJson? outer
    let i ← ofJson? inner
    return .compose o i
  | _ => none

end Fn

namespace Value

def toJson : Value → Json
  | .int n => .tagged "Int" (.int n)
  | .bool b => .tagged "Bool" (.bool b)
  | .list xs => .tagged "List" (.ofList .int xs)
  | .func f => .tagged "Func" f.toJson

def ofJson? : Json → Option Value
  | .obj [("Int", j)] => j.word?.map .int
  | .obj [("Bool", j)] => j.bool?.map .bool
  | .obj [("List", j)] => (j.list? Json.word?).map .list
  | .obj [("Func", j)] => (Fn.ofJson? j).map .func
  | _ => none

end Value

/-! ## Terms -/

namespace Term

mutual

def toJson : Term → Json
  | .lit v => .tagged "Literal" v.toJson
  | .var i => .tagged "Variable" (.nat i)
  | .apply id args =>
    .tagged "Apply" (.obj [("primitive", .nat id), ("args", .arr (toJsons args))])

def toJsons : List Term → List Json
  | [] => []
  | t :: ts => t.toJson :: toJsons ts

end

mutual

def ofJson? : Json → Option Term
  | .obj [("Literal", j)] => (Value.ofJson? j).map .lit
  | .obj [("Variable", j)] => j.count?.map .var
  | .obj [("Apply", .obj members)] => do
    let (id, args) ← parts? members
    return .apply (← id) (← args)
  | _ => none

def ofJsons? : List Json → Option (List Term)
  | [] => some []
  | j :: js => do
    let t ← ofJson? j
    let ts ← ofJsons? js
    return t :: ts

/-- The primitive and the arguments among the members of an application, each at most once. -/
def parts? : List (String × Json) → Option (Option PrimId × Option (List Term))
  | [] => some (none, none)
  | ("args", .arr items) :: ms => do
    let ts ← ofJsons? items
    let (id, args) ← parts? ms
    if args.isSome then none else some (id, some ts)
  | ("primitive", v) :: ms => do
    let i ← v.index?
    let (id, args) ← parts? ms
    if id.isSome then none else some (some i, args)
  | (name, _) :: ms => if name = "args" then none else parts? ms

end

end Term

/-! ## Examples and primitives -/

namespace Example

def toJson (e : Example) : Json :=
  .obj [("inputs", .ofList Value.toJson e.inputs), ("output", e.output.toJson)]

def ofJson? (j : Json) : Option Example := do
  let fs ← j.fields? ["inputs", "output"]
  return ⟨← fs.required? "inputs" (Json.list? Value.ofJson?),
    ← fs.required? "output" Value.ofJson?⟩

end Example

namespace Builtin

def ruleName : Builtin → String
  | .add => "Add"
  | .sub => "Sub"
  | .mul => "Mul"
  | .div => "Div"
  | .mod => "Mod"
  | .neg => "Neg"
  | .eq => "Eq"
  | .lt => "Lt"
  | .gt => "Gt"
  | .and => "And"
  | .or => "Or"
  | .not => "Not"
  | .cond => "If"
  | .identity => "Identity"
  | .compose => "Compose"
  | .fix => "Fix"
  | .map => "Map"
  | .filter => "Filter"
  | .fold => "Fold"
  | .head => "Head"
  | .tail => "Tail"
  | .cons => "Cons"
  | .length => "Length"

def ofRuleName? (s : String) : Option Builtin := all.find? (fun b => b.ruleName == s)

end Builtin

namespace Rule

def toJson : Rule → Json
  | .builtin b => .tagged "Builtin" (.str b.ruleName)
  | .learned body => .tagged "Learned" (.obj [("body", body.toJson)])

def ofJson? (j : Json) : Option Rule := do
  match ← j.choice? with
  | ("Builtin", some content) => return .builtin (← content.name?.bind Builtin.ofRuleName?)
  | ("Learned", content) =>
    let fs ← Json.contentFields? ["body"] content
    return .learned (← fs.required? "body" Term.ofJson?)
  | _ => none

end Rule

namespace Primitive

def toJson (p : Primitive) : Json :=
  .obj [("id", .nat p.id), ("name", .str p.name), ("signature", p.signature.toJson),
    ("rule", p.rule.toJson), ("cost", .nat p.cost)]

def ofJson? (j : Json) : Option Primitive := do
  let fs ← j.fields? ["id", "name", "signature", "rule", "cost"]
  return {
    id := ← fs.required? "id" Json.index?
    name := ← fs.required? "name" Json.str?
    signature := ← fs.required? "signature" Signature.ofJson?
    rule := ← fs.required? "rule" Rule.ofJson?
    cost := ← fs.required? "cost" Json.index? }

end Primitive

end Exemplar
