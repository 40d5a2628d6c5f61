import Exemplar.Decimal.Shortest
import Exemplar.Json.Basic

/-!
# Writing JSON text

Two layouts: everything on one line without blanks, and one member or item a line, indented by two
blanks for each level.
-/

namespace Exemplar.Json

def hexDigit (n : Nat) : Char := Char.ofNat (if n < 10 then 48 + n else 87 + n)

/-- How a character stands inside quotes. -/
def quoteChar (c : Char) : String :=
  match c with
  | '"' => "\\\""
  | '\\' => "\\\\"
  | '\n' => "\\n"
  | '\r' => "\\r"
  | '\t' => "\\t"
  | _ =>
    if c.toNat = 8 then "\\b"
    else if c.toNat = 12 then "\\f"
    else if c.toNat < 32 then
      "\\u00" ++ String.ofList [hexDigit (c.toNat / 16), hexDigit (c.toNat % 16)]
    else c.toString

def quote (s : String) : String :=
  s.toList.foldl (fun out c => out ++ quoteChar c) "\"" ++ "\""

/-- The text of a value that holds no others. -/
def atom : Json → String
  | .null => "null"
  | .bool b => if b then "true" else "false"
  | .int n => toString n
  | .float x => (Decimal.data? x).getD "null"
  | .str s => quote s
  | .arr _ => "[]"
  | .obj _ => "\x7b\x7d"

mutual

/-- The text so far with a value behind it, on one line. -/
def write (out : String) : Json → String
  | .arr items => writeItems (out ++ "[") true items ++ "]"
  | .obj members => writeMembers (out ++ "\x7b") true members ++ "\x7d"
  | v => out ++ atom v

/-- The text so far with items behind it, separated by commas. -/
def writeItems (out : String) (first : Bool) : List Json → String
  | [] => out
  | v :: vs => writeItems (write (if first then out else out ++ ",") v) false vs

/-- The text so far with members behind it, separated by commas. -/
def writeMembers (out : String) (first : Bool) : List (String × Json) → String
  | [] => out
  | (k, v) :: ms =>
    writeMembers (write ((if first then out else out ++ ",") ++ quote k ++ ":") v) false ms

end

def compact (v : Json) : String := write "" v

/-- Adds a text behind the last of some lines. -/
def appendLast (lines : List String) (s : String) : List String :=
  match lines.reverse with
  | [] => [s]
  | last :: before => ((last ++ s) :: before).reverse

mutual

/-- The lines of a value: the first one follows `lead`, the others are indented by `indent`. -/
def lines (indent lead : String) : Json → List String
  | .arr (v :: vs) => (lead ++ "[") :: itemLines (indent ++ "  ") (v :: vs) ++ [indent ++ "]"]
  | .obj (m :: ms) =>
    (lead ++ "\x7b") :: memberLines (indent ++ "  ") (m :: ms) ++ [indent ++ "\x7d"]
  | v => [lead ++ atom v]

def itemLines (indent : String) : List Json → List String
  | [] => []
  | [v] => lines indent indent v
  | v :: vs => appendLast (lines indent indent v) "," ++ itemLines indent vs

def memberLines (indent : String) : List (String × Json) → List String
  | [] => []
  | [(k, v)] => lines indent (indent ++ quote k ++ ": ") v
  | (k, v) :: ms =>
    appendLast (lines indent (indent ++ quote k ++ ": ") v) "," ++ memberLines indent ms

end

/-- The value with one member or item a line. -/
def pretty (v : Json) : List String := lines "" "" v

end Exemplar.Json
