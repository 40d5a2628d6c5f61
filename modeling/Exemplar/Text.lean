import Exemplar.Text.Invisible

/-!
# Text

How texts are joined, padded and quoted in the messages of the library. A text in quotes stands on one
line: quotes and backslashes are marked by a backslash, and characters that do not show are written by
their number.
-/

namespace Exemplar.Text

/-- The texts one after the other, separated by a comma and a blank. -/
def commas : List String → String
  | [] => ""
  | [s] => s
  | s :: rest => s ++ ", " ++ commas rest

def copies (n : Nat) (c : Char) : String :=
  String.ofList (List.replicate n c)

/-- The text filled up with blanks on its right to at least `width` characters. -/
def padRight (width : Nat) (s : String) : String :=
  s ++ copies (width - s.length) ' '

def ofBool : Bool → String
  | true => "true"
  | false => "false"

/-- How a character stands inside quotes. -/
def quoteChar (c : Char) : String :=
  if c = '"' then "\\\""
  else if c = '\\' then "\\\\"
  else if c = '\n' then "\\n"
  else if c = '\r' then "\\r"
  else if c = '\t' then "\\t"
  else if c.toNat = 0 then "\\0"
  else if isInvisible c then
    "\\u\x7b" ++ String.ofList (Nat.toDigits 16 c.toNat) ++ "\x7d"
  else c.toString

def quoted (s : String) : String := "\"" ++ String.join (s.toList.map quoteChar) ++ "\""

end Exemplar.Text
