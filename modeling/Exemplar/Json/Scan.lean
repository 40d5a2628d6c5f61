import Exemplar.Decimal.Numeral
import Exemplar.Json.Fault

/-!
# Scanning JSON text

A scan reads a part of a text from its front and moves on behind it, or ends in a fault. Here stand
the scans of single words, numbers and quoted texts, and the scan that passes over a whole value
without keeping it.
-/

namespace Exemplar.Json

/-- What is left of a text. -/
structure Cursor where
  rest : List Char
  /-- The place where the rest begins. -/
  place : Place
  /-- More than the number of characters in the whole text, and so than the turns of any loop
  over it. -/
  bound : Nat
  deriving Inhabited

namespace Cursor

def ofText (s : String) : Cursor := ⟨s.toList, .start, s.length + 1⟩

def tail (c : Cursor) : Cursor :=
  match c.rest with
  | [] => c
  | x :: rest => { c with rest := rest, place := c.place.after x }

/-- The characters at the front that a test holds for. -/
def front (c : Cursor) (test : Char → Bool) : List Char := c.rest.takeWhile test

/-- The rest behind the characters at the front that a test holds for. -/
def behind (c : Cursor) (test : Char → Bool) : Cursor :=
  { c with
    rest := c.rest.dropWhile test
    place := (c.front test).foldl Place.after c.place }

def ahead (c : Cursor) (bytes : Nat) : Place := c.place.forward bytes c.rest

end Cursor

/-- Reads a part of a text. What has been read of the text is gone also after a fault. -/
abbrev Scan (α : Type) := ExceptT Fault (StateM Cursor) α

namespace Scan

/-! ## Characters -/

def peek? : Scan (Option Char) := return (← get).rest.head?

def pass : Scan Unit := modify Cursor.tail

/-- A fault at the present place. -/
def faultHere {α : Type} (cause : Cause) : Scan α := do throw ⟨cause, (← get).place⟩

/-- A fault at the first byte of the next character, which is counted as seen. -/
def faultAhead {α : Type} (cause : Cause) : Scan α := do throw ⟨cause, (← get).ahead 1⟩

def isBlank (c : Char) : Bool := c = ' ' || c = '\n' || c = '\t' || c = '\r'

def next? : Scan (Option Char) := do
  modify (Cursor.behind · isBlank)
  peek?

/-! ## Words and numbers -/

def word : List Char → Scan Unit
  | [] => return ()
  | c :: cs => do
    match ← peek? with
    | none => faultHere .endBeforeValue
    | some x =>
      if x = c then
        pass
        word cs
      else faultAhead .unknownWord

def digits : Scan (List Char) := do
  let c ← get
  set (c.behind Char.isDigit)
  return c.front Char.isDigit

/-- The digits that follow, of which there is at least one. -/
def someDigits (atEnd : Cause) : Scan (List Char) := do
  match ← peek? with
  | none => faultHere atEnd
  | some c => if c.isDigit then digits else faultAhead .badNumber

/-- The digits before the point: a zero stands alone. -/
def whole (atEnd : Cause) : Scan (List Char) := do
  if (← peek?) = some '0' then
    pass
    if (← peek?).any Char.isDigit then faultAhead .badNumber else return ['0']
  else someDigits atEnd

/-- A point with digits behind it, if there is one. -/
def fraction (atEnd : Cause) : Scan (Option (List Char)) := do
  if (← peek?) = some '.' then
    pass
    return some (← someDigits atEnd)
  else return none

/-- The greatest exponent. -/
def maxExponent : Nat := 2147483647

/-- How many of the digits that follow a number it takes to exceed the greatest exponent, if they
do. -/
def exceedsAfter? (n : Nat) : List Char → Option Nat
  | [] => none
  | d :: ds =>
    let next := 10 * n + (d.toNat - '0'.toNat)
    if maxExponent < next then some 1 else (exceedsAfter? next ds).map (· + 1)

/-- An exponent, if there is one: a sign is optional, digits are not. One that is too great is
refused at the digit that makes it so, unless the number is zero or is `skipped`. -/
def exponent (n : Decimal.Numeral) (atEnd : Cause) (skipped : Bool) : Scan (Option Int) := do
  if (← peek?).any (fun c => c = 'e' || c = 'E') then
    pass
    let sign ← peek?
    if sign = some '+' || sign = some '-' then pass
    let c ← get
    let ds ← someDigits atEnd
    if sign = some '-' then return some (-(Decimal.ofDigits ds : Int))
    else
      match exceedsAfter? 0 ds with
      | some count =>
        if skipped || n.significand.1 = 0 then return some 0
        else throw ⟨.numberOutOfRange, c.ahead count⟩
      | none => return some (Decimal.ofDigits ds)
  else return none

/-- A number in its parts. One that is `skipped` may be out of range, and a text that ends inside
it is a fault of the number. -/
def numeral (skipped : Bool) : Scan Decimal.Numeral := do
  let atEnd : Cause := if skipped then .badNumber else .endBeforeValue
  let negative := (← peek?) = some '-'
  if negative then pass
  let whole ← whole atEnd
  let n : Decimal.Numeral := ⟨negative, whole, ← fraction atEnd, none⟩
  return { n with exponent := ← exponent n atEnd skipped }

/-- A number: an integer if it is written as one and fits, and a finite floating-point number
otherwise. -/
def number : Scan Json := do
  let n ← numeral false
  match n.int? with
  | some i => return .int i
  | none => if n.float.isFinite then return .float n.float else faultHere .numberOutOfRange

/-- Whether a number begins with a character. -/
def startsNumber (c : Char) : Bool := c = '-' || c.isDigit

/-! ## Quoted texts -/

def hexDigit? (c : Char) : Option Nat :=
  if c.isDigit then some (c.toNat - 48)
  else if 'a' ≤ c ∧ c ≤ 'f' then some (c.toNat - 87)
  else if 'A' ≤ c ∧ c ≤ 'F' then some (c.toNat - 55)
  else none

/-- A sixteen-bit unit in four hexadecimal digits, which are taken as four bytes. -/
def unit : Scan Nat := do
  let c ← get
  let four := c.rest.take 4
  if (String.ofList four).utf8ByteSize < 4 then
    throw ⟨.endInQuotes, c.ahead 4⟩
  match four.mapM hexDigit? with
  | some ds =>
    set { c with rest := c.rest.drop 4, place := c.ahead 4 }
    return ds.foldl (fun n d => 16 * n + d) 0
  | none => throw ⟨.badEscape, c.ahead 4⟩

/-- Whether a unit is the first half of a surrogate pair. -/
def isHigh (u : Nat) : Bool := 0xD800 ≤ u && u < 0xDC00

/-- Whether a unit is the second half of a surrogate pair. -/
def isLow (u : Nat) : Bool := 0xDC00 ≤ u && u < 0xE000

/-- The character that must follow inside an escape. -/
def escapePart (c : Char) : Scan Unit := do
  match ← peek? with
  | none => faultHere .endInQuotes
  | some x => if x = c then pass else faultAhead .halfSurrogate

/-- The character of one unit, or of two that are a surrogate pair. -/
def unicode : Scan Char := do
  let u ← unit
  if isLow u then faultHere .loneSurrogate
  else if isHigh u then
    escapePart '\\'
    escapePart 'u'
    let v ← unit
    if isLow v then return Char.ofNat (0x10000 + (u - 0xD800) * 0x400 + (v - 0xDC00))
    else faultHere .loneSurrogate
  else return Char.ofNat u

/-- The character of a one-letter escape. -/
def escaped? : Char → Option Char
  | '"' => some '"'
  | '\\' => some '\\'
  | '/' => some '/'
  | 'b' => some '\x08'
  | 'f' => some '\x0c'
  | 'n' => some '\n'
  | 'r' => some '\r'
  | 't' => some '\t'
  | _ => none

/-- The character of an escape behind its backslash; `wide` reads the one that is given by
number. -/
def escape (wide : Scan Char) : Scan Char := do
  match ← peek? with
  | none => faultHere .endInQuotes
  | some 'u' =>
    pass
    wide
  | some c =>
    match escaped? c with
    | some e =>
      pass
      return e
    | none => faultAhead .badEscape

/-- The characters up to the closing quote, behind those that stand in `chars` in reverse order.
A control character is met by `control`. -/
def quotedFrom (wide control : Scan Char) (chars : List Char) : Nat → Scan (List Char)
  | 0 => faultHere .endInQuotes
  | bound + 1 => do
    match ← peek? with
    | none => faultHere .endInQuotes
    | some '"' =>
      pass
      return chars.reverse
    | some '\\' =>
      pass
      let c ← escape wide
      quotedFrom wide control (c :: chars) bound
    | some c =>
      if c.toNat < 0x20 then
        let c ← control
        quotedFrom wide control (c :: chars) bound
      else
        pass
        quotedFrom wide control (c :: chars) bound

def quoted : Scan String := do
  pass
  let chars ← quotedFrom unicode (faultAhead .controlCharacter) [] (← get).bound
  return String.ofList chars

/-- Passes over a text in quotes, in which surrogates need not be paired. -/
def skipQuoted : Scan Unit := do
  pass
  let wide : Scan Char := do
    let _ ← unit
    return ' '
  let _ ← quotedFrom wide (faultHere .controlCharacter) [] (← get).bound

/-! ## Parts of lists and objects -/

/-- Whether another item follows in a list; the comma before it is passed over. -/
def anotherItem (first : Bool) : Scan Bool := do
  match ← next? with
  | none => faultAhead .endInList
  | some c =>
    if c = ']' then return false
    else if first then return true
    else if c = ',' then
      pass
      match ← next? with
      | none => faultAhead .endBeforeValue
      | some ']' => faultAhead .trailingComma
      | some _ => return true
    else faultAhead .noItemEnd

/-- Whether another member follows in an object; the comma before it is passed over. -/
def anotherMember (first : Bool) : Scan Bool := do
  match ← next? with
  | none => faultAhead .endInObject
  | some c =>
    if c = '\x7d' then return false
    else if first then
      if c = '"' then return true else faultAhead .keyNotQuoted
    else if c = ',' then
      pass
      match ← next? with
      | none => faultAhead .endBeforeValue
      | some '"' => return true
      | some '\x7d' => faultAhead .trailingComma
      | some _ => faultAhead .keyNotQuoted
    else faultAhead .noMemberEnd

def colon : Scan Unit := do
  match ← next? with
  | some ':' => pass
  | some _ => faultAhead .noColon
  | none => faultAhead .endInObject

/-- The items of a list, behind those that stand in `items` in reverse order. -/
def itemsFrom {α : Type} (item : Scan α) (items : List α) : Nat → Scan (List α)
  | 0 => return items.reverse
  | bound + 1 => do
    if ← anotherItem items.isEmpty then
      let a ← item
      itemsFrom item (a :: items) bound
    else return items.reverse

def endList : Scan Unit := do
  match ← next? with
  | none => faultAhead .endInList
  | some ']' => pass
  | some ',' =>
    pass
    if (← next?) = some ']' then faultAhead .trailingComma else faultAhead .trailingText
  | some _ => faultAhead .trailingText

def endObject : Scan Unit := do
  match ← next? with
  | none => faultAhead .endInObject
  | some '\x7d' => pass
  | some ',' => faultAhead .trailingComma
  | some _ => faultAhead .trailingText

/-! ## Passing over values -/

/-- What can be open around a value. -/
inductive Bracket where
  | list
  | object
  deriving Inhabited, Repr, DecidableEq

namespace Bracket

/-- The closing character. -/
def closing : Bracket → Char
  | .list => ']'
  | .object => '\x7d'

/-- The fault of a text that ends inside. -/
def atEnd : Bracket → Cause
  | .list => .endInList
  | .object => .endInObject

/-- The fault of something else than a comma or the closing character behind a part. -/
def noEnd : Bracket → Cause
  | .list => .noItemEnd
  | .object => .noMemberEnd

end Bracket

/-- Passes over a value that holds no others, or over the bracket that opens one that does. -/
def skipFirst : Scan (Option Bracket) := do
  match ← next? with
  | none => faultAhead .endBeforeValue
  | some c =>
    if c = '[' then
      pass
      return some .list
    else if c = '\x7b' then
      pass
      return some .object
    else if c = '"' then
      skipQuoted
      return none
    else if startsNumber c then
      let _ ← numeral true
      return none
    else if c = 'n' then
      word ['n', 'u', 'l', 'l']
      return none
    else if c = 't' then
      word ['t', 'r', 'u', 'e']
      return none
    else if c = 'f' then
      word ['f', 'a', 'l', 's', 'e']
      return none
    else faultAhead .noValue

/-- Passes over closing brackets up to the next part, and over the comma before it; the brackets
that are still open are left. `behindPart` says whether a part ends where the scan stands. -/
def skipClosing (behindPart : Bool) (brackets : List Bracket) : Nat → Scan (List Bracket)
  | 0 => return brackets
  | bound + 1 =>
    match brackets with
    | [] => return []
    | b :: outer => do
      match ← next? with
      | none => faultAhead b.atEnd
      | some c =>
        if c = ',' && behindPart then
          pass
          return brackets
        else if c = b.closing then
          pass
          skipClosing true outer bound
        else if behindPart then faultAhead b.noEnd
        else return brackets

/-- Passes over a key and its colon. -/
def skipKey : Scan Unit := do
  match ← next? with
  | some '"' => skipQuoted
  | some _ => faultAhead .keyNotQuoted
  | none => faultAhead .endInObject
  colon

/-- Passes over a value, and over everything up to the end of the brackets around it. -/
def skipWithin (brackets : List Bracket) : Nat → Scan Unit
  | 0 => return ()
  | bound + 1 => do
    let opened ← skipFirst
    let brackets ← skipClosing opened.isNone (opened.toList ++ brackets) (← get).bound
    match brackets with
    | [] => return ()
    | .list :: _ => skipWithin brackets bound
    | .object :: _ =>
      skipKey
      skipWithin brackets bound

def skip : Scan Unit := do skipWithin [] (← get).bound

/-! ## Whole texts -/

/-- What a scan reads, if nothing but blanks follows. -/
def entire {α : Type} (scan : Scan α) : Scan α := do
  let a ← scan
  match ← next? with
  | none => return a
  | some _ => faultAhead .trailingText

/-- What a scan reads as a whole text. -/
def readText {α : Type} (scan : Scan α) (s : String) : Except Fault α :=
  (scan.entire.run.run (Cursor.ofText s)).1

end Scan

end Exemplar.Json
