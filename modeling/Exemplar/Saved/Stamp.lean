import Exemplar.Decimal.Numeral
import Exemplar.Text

/-!
# Points in time

The texts for points in time: a date, a time of day, and an offset from universal time. They are
written in universal time. When they are read, blanks between the parts are skipped and leading
zeros may be missing.
-/

namespace Exemplar

/-- A point in time, counted from the start of the year 1970. -/
structure Stamp where
  seconds : Nat
  nanos : Nat
  deriving Inhabited, Repr, DecidableEq

namespace Stamp

/-! ## The calendar -/

def isLeap (year : Int) : Bool :=
  year % 4 = 0 && (year % 100 ≠ 0 || year % 400 = 0)

/-- The number of days of a month, none for a number that is no month. -/
def daysIn (year : Int) (month : Nat) : Nat :=
  match month with
  | 1 | 3 | 5 | 7 | 8 | 10 | 12 => 31
  | 4 | 6 | 9 | 11 => 30
  | 2 => if isLeap year then 29 else 28
  | _ => 0

def daysOf (year : Int) : Nat := if isLeap year then 366 else 365

/-- The year and the day in it, counted from a year on; `fuel` bounds the number of years. -/
def yearFrom : (fuel : Nat) → (year day : Nat) → Nat × Nat
  | 0, year, day => (year, day)
  | fuel + 1, year, day =>
    if day < daysOf year then (year, day) else yearFrom fuel (year + 1) (day - daysOf year)

/-- The month and the day in it, counted from a month on. -/
def monthFrom (year : Nat) : (left month day : Nat) → Nat × Nat
  | 0, month, day => (month, day)
  | left + 1, month, day =>
    if day < daysIn year month then (month, day)
    else monthFrom year left (month + 1) (day - daysIn year month)

/-! ## Writing -/

def padded (width n : Nat) : String :=
  let s := toString n
  Text.copies (width - s.length) '0' ++ s

/-- The part of a second in as many groups of three digits as it needs. -/
def fraction (nanos : Nat) : String :=
  if nanos = 0 then ""
  else if nanos % 1000000 = 0 then "." ++ padded 3 (nanos / 1000000)
  else if nanos % 1000 = 0 then "." ++ padded 6 (nanos / 1000)
  else "." ++ padded 9 nanos

def text (s : Stamp) : String :=
  let days := s.seconds / 86400
  let time := s.seconds % 86400
  let (year, dayOfYear) := yearFrom days 1970 days
  let (month, day) := monthFrom year 12 1 dayOfYear
  padded 4 year ++ "-" ++ padded 2 month ++ "-" ++ padded 2 (day + 1) ++ "T" ++
    padded 2 (time / 3600) ++ ":" ++ padded 2 (time / 60 % 60) ++ ":" ++ padded 2 (time % 60) ++
    fraction s.nanos ++ "Z"

/-! ## Reading -/

def isBlank (c : Char) : Bool :=
  let n := c.toNat
  (9 ≤ n && n ≤ 13) || n = 32 || n = 0x85 || n = 0xA0 || n = 0x1680 ||
    (0x2000 ≤ n && n ≤ 0x200A) || n = 0x2028 || n = 0x2029 || n = 0x202F || n = 0x205F || n = 0x3000

def skip (cs : List Char) : List Char := cs.dropWhile isBlank

/-- A number of at most `width` digits behind blanks, and what follows it. -/
def number? (width : Nat) (cs : List Char) : Option (Nat × List Char) :=
  let rest := skip cs
  let ds := (rest.takeWhile Char.isDigit).take width
  if ds.isEmpty then none else some (Decimal.ofDigits ds, rest.drop ds.length)

/-- A year: four digits at most, or a sign and any number of digits. -/
def year? (cs : List Char) : Option (Int × List Char) :=
  match skip cs with
  | '-' :: rest =>
    let ds := rest.takeWhile Char.isDigit
    if ds.isEmpty then none else some (-(Decimal.ofDigits ds : Int), rest.drop ds.length)
  | '+' :: rest =>
    let ds := rest.takeWhile Char.isDigit
    if ds.isEmpty then none else some (Decimal.ofDigits ds, rest.drop ds.length)
  | rest => (number? 4 rest).map (fun r => (r.1, r.2))

/-- What follows a character behind blanks. -/
def after? (c : Char) (cs : List Char) : Option (List Char) :=
  match skip cs with
  | d :: rest => if c = d then some rest else none
  | [] => none

/-- What follows the part of a second, if there is one. -/
def fraction? : List Char → Option (List Char)
  | '.' :: rest =>
    if (rest.takeWhile Char.isDigit).isEmpty then none else some (rest.dropWhile Char.isDigit)
  | cs => some cs

/-- The seconds of an offset of hours and minutes, and what follows it. -/
def shift? (cs : List Char) : Option (Nat × List Char) :=
  match cs with
  | a :: b :: rest =>
    match rest.dropWhile (fun c => c = ':' || isBlank c) with
    | c :: d :: tail =>
      let hours := Decimal.ofDigits [a, b]
      let minutes := Decimal.ofDigits [c, d]
      if [a, b, c, d].all Char.isDigit && hours < 24 && minutes < 60 then
        some (hours * 3600 + minutes * 60, tail)
      else none
    | _ => none
  | _ => none

/-- The seconds of an offset from universal time, and what follows it. -/
def offset? (cs : List Char) : Option (Int × List Char) :=
  match cs with
  | c :: rest =>
    if c = 'Z' || c = 'z' then some (0, rest)
    else if (cs.take 3).map Char.toUpper = ['U', 'T', 'C'] then some (0, cs.drop 3)
    else if c = '+' then (shift? rest).map (fun s => (s.1, s.2))
    else if c = '-' || c.toNat = 0x2212 then (shift? rest).map (fun s => (-(s.1 : Int), s.2))
    else none
  | [] => none

/-- What follows the sign between date and time. -/
def separator? : List Char → Option (List Char)
  | 'T' :: rest => some rest
  | 't' :: rest => some rest
  | ' ' :: rest => some rest
  | _ => none

/-- The first year of which every day is in range. -/
def firstYear : Int := -262143

/-- The last year of which every day is in range. -/
def lastYear : Int := 262142

/-- Whether a date and a second of it that is counted in an offset from universal time are in range
in universal time. -/
def inRange (year : Int) (month day second : Nat) (offset : Int) : Bool :=
  firstYear ≤ year && year ≤ lastYear &&
    !((year, month, day) = (firstYear, 1, 1) && (second : Int) - offset < 0) &&
    !((year, month, day) = (lastYear, 12, 31) && 86400 ≤ (second : Int) - offset)

/-- Whether a text is a point in time: a date that exists, a time of day that may be within a leap
second, and an offset. -/
def isText? (cs : List Char) : Option Bool := do
  let (year, cs) ← year? cs
  let (month, cs) ← number? 2 (← after? '-' cs)
  let (day, cs) ← number? 2 (← after? '-' cs)
  let (hour, cs) ← number? 2 (← separator? cs)
  let (minute, cs) ← number? 2 (← after? ':' cs)
  let (second, cs) ← number? 2 (← after? ':' cs)
  let (offset, rest) ← offset? (skip (← fraction? cs))
  return (skip rest).isEmpty && 0 < day && day ≤ daysIn year month && hour < 24 && minute < 60 &&
    second ≤ 60 && inRange year month day (hour * 3600 + minute * 60 + min second 59) offset

def isText (s : String) : Bool := (isText? s.toList).getD false

end Stamp

end Exemplar
