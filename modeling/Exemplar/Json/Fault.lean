import Exemplar.Decimal.Shortest
import Exemplar.Json.Basic
import Exemplar.Text

/-!
# Faults of JSON text

Why a text cannot be read, and where in it that shows: a text may not be JSON at all, or it may hold
another value than the one that is wanted.
-/

namespace Exemplar.Json

/-! ## Places -/

/-- A place in a text: its line, counted from one, and the bytes before it on that line. -/
structure Place where
  line : Nat
  column : Nat
  deriving Inhabited, Repr, DecidableEq

namespace Place

def start : Place := ⟨1, 0⟩

/-- The place behind a character. -/
def after (p : Place) (c : Char) : Place :=
  if c = '\n' then ⟨p.line + 1, 0⟩ else ⟨p.line, p.column + c.utf8Size⟩

/-- The place some bytes further, at most behind the characters that follow. -/
def forward (p : Place) (bytes : Nat) : List Char → Place
  | [] => p
  | c :: cs =>
    if bytes = 0 then p
    else if c.utf8Size ≤ bytes then (p.after c).forward (bytes - c.utf8Size) cs
    else ⟨p.line, p.column + bytes⟩

end Place

/-! ## Causes -/

/-- What is wrong with a text. -/
inductive Cause where
  | endInList
  | endInObject
  | endInQuotes
  | endBeforeValue
  | noColon
  /-- Neither a comma nor a closing bracket behind an item. -/
  | noItemEnd
  /-- Neither a comma nor a closing brace behind a member. -/
  | noMemberEnd
  | unknownWord
  | noValue
  | badEscape
  | badNumber
  | numberOutOfRange
  | controlCharacter
  | keyNotQuoted
  | loneSurrogate
  /-- The first half of a surrogate pair without an escape behind it. -/
  | halfSurrogate
  | trailingComma
  | trailingText
  /-- Lists and objects that are nested too deep. -/
  | tooDeep
  /-- A value of another kind than expected. -/
  | wrongKind (found : Json) (expected : String)
  /-- A value of the expected kind that is not in its range. -/
  | wrongValue (found : Json) (expected : String)
  | wrongLength (length : Nat) (expected : String)
  | unknownField (name : String) (known : List String)
  | missingField (name : String)
  | repeatedField (name : String)
  /-- The fields of a record are each in range, but not all together. -/
  | overflow (name : String)
  deriving Inhabited

/-- How a fault names the value that it found. -/
def kindText : Json → String
  | .null => "null"
  | .bool b => "boolean `" ++ Text.ofBool b ++ "`"
  | .int n => "integer `" ++ toString n ++ "`"
  | .float x => "floating point `" ++ (Decimal.data? x).getD "null" ++ "`"
  | .str s => "string " ++ Text.quoted s
  | .arr _ => "sequence"
  | .obj _ => "map"

/-- A choice of names. -/
def oneOf : List String → String
  | [] => "nothing"
  | [a] => "`" ++ a ++ "`"
  | [a, b] => "`" ++ a ++ "` or `" ++ b ++ "`"
  | names => "one of " ++ Text.commas (names.map (fun a => "`" ++ a ++ "`"))

def Cause.text : Cause → String
  | .endInList => "EOF while parsing a list"
  | .endInObject => "EOF while parsing an object"
  | .endInQuotes => "EOF while parsing a string"
  | .endBeforeValue => "EOF while parsing a value"
  | .noColon => "expected `:`"
  | .noItemEnd => "expected `,` or `]`"
  | .noMemberEnd => "expected `,` or `\x7d`"
  | .unknownWord => "expected ident"
  | .noValue => "expected value"
  | .badEscape => "invalid escape"
  | .badNumber => "invalid number"
  | .numberOutOfRange => "number out of range"
  | .controlCharacter => "control character (\\u0000-\\u001F) found while parsing a string"
  | .keyNotQuoted => "key must be a string"
  | .loneSurrogate => "lone leading surrogate in hex escape"
  | .halfSurrogate => "unexpected end of hex escape"
  | .trailingComma => "trailing comma"
  | .trailingText => "trailing characters"
  | .tooDeep => "recursion limit exceeded"
  | .wrongKind v expected => "invalid type: " ++ kindText v ++ ", expected " ++ expected
  | .wrongValue v expected => "invalid value: " ++ kindText v ++ ", expected " ++ expected
  | .wrongLength n expected => "invalid length " ++ toString n ++ ", expected " ++ expected
  | .unknownField name known => "unknown field `" ++ name ++ "`, expected " ++ oneOf known
  | .missingField name => "missing field `" ++ name ++ "`"
  | .repeatedField name => "duplicate field `" ++ name ++ "`"
  | .overflow name => "overflow deserializing " ++ name

/-- A cause, and the place where it shows. -/
structure Fault where
  cause : Cause
  place : Place
  deriving Inhabited

def Fault.text (f : Fault) : String :=
  f.cause.text ++ " at line " ++ toString f.place.line ++ " column " ++ toString f.place.column

end Exemplar.Json
