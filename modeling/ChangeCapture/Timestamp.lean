import ChangeCapture.Text.Blank

/-!
# Timestamps

An instant in UTC with nanoseconds, as RFC 3339 text. Reading is lenient: blanks may stand between
the parts, the date and the time may be parted by a space, the year may have a sign and more than
four digits, the offset may lack its colon or be spelt `UTC`, and digits beyond nanoseconds are
dropped. A leap second is kept as one. Writing uses `Z` and as few groups of three fraction digits
as hold the value.

## Main definitions

* `Timestamp`, `Timestamp.parse?`, `Timestamp.text`.
-/

namespace ChangeCapture

/-- **An instant in UTC**: a day counted from 1970-01-01, a second of the day, and nanoseconds. From
`10 ^ 9` nanoseconds up the instant lies in a leap second after its second. -/
structure Timestamp where
  day : Int
  second : Nat
  nano : Nat
  deriving DecidableEq, Repr

namespace Timestamp

/-! ### Calendar -/

/-- Leap years of the Gregorian calendar. -/
def isLeapYear (year : Int) : Bool :=
  year % 4 == 0 && (year % 100 != 0 || year % 400 == 0)

/-- The number of days of a month. -/
def daysInMonth (year : Int) (month : Nat) : Nat :=
  if month = 2 then if isLeapYear year then 29 else 28
  else if month = 4 || month = 6 || month = 9 || month = 11 then 30
  else 31

/-- The day of a date, counted from 1970-01-01. The year is taken to begin in March, so that the
leap day is its last. -/
def dayOf (year : Int) (month day : Nat) : Int :=
  let y := if month ≤ 2 then year - 1 else year
  let era := y / 400
  let yearOfEra := y % 400
  let monthFromMarch : Int := (month + 9) % 12
  let dayOfYear := (153 * monthFromMarch + 2) / 5 + (day : Int) - 1
  let dayOfEra := yearOfEra * 365 + yearOfEra / 4 - yearOfEra / 100 + dayOfYear
  era * 146097 + dayOfEra - 719468

/-- The year, month and day of the month of a day counted from 1970-01-01. -/
def dateOf (day : Int) : Int × Nat × Nat :=
  let z := day + 719468
  let era := z / 146097
  let dayOfEra := z % 146097
  let yearOfEra :=
    (dayOfEra - dayOfEra / 1460 + dayOfEra / 36524 - dayOfEra / 146096) / 365
  let dayOfYear := dayOfEra - (365 * yearOfEra + yearOfEra / 4 - yearOfEra / 100)
  let monthFromMarch := (5 * dayOfYear + 2) / 153
  let d := dayOfYear - (153 * monthFromMarch + 2) / 5 + 1
  let m := if monthFromMarch < 10 then monthFromMarch + 3 else monthFromMarch - 9
  let y := yearOfEra + era * 400 + (if m ≤ 2 then 1 else 0)
  (y, m.toNat, d.toNat)

/-- The first and the last year that a date may have. -/
def firstYear : Int := -262143

/-- The last year that a date may have. -/
def lastYear : Int := 262142

/-! ### Reading -/

/-- The value of decimal digits. -/
def valueOf (digits : List Char) : Nat :=
  digits.foldl (fun n c => n * 10 + (c.toNat - 48)) 0

/-- A number of one digit at least and `width` at most, with what follows it. -/
def takeNumber (width : Nat) (cs : List Char) : Option (Nat × List Char) :=
  let digits := (cs.take width).takeWhile Char.isDigit
  if digits.isEmpty then none else some (valueOf digits, cs.drop digits.length)

/-- A number of two digits at most, after any blanks. -/
def takePart (cs : List Char) : Option (Nat × List Char) :=
  takeNumber 2 (cs.dropWhile isBlank)

/-- A year after any blanks: up to four digits, or a sign and any number of them. -/
def takeYear (cs : List Char) : Option (Int × List Char) :=
  match cs.dropWhile isBlank with
  | '-' :: cs => (takeNumber cs.length cs).map fun (n, cs) => (-(n : Int), cs)
  | '+' :: cs => (takeNumber cs.length cs).map fun (n, cs) => ((n : Int), cs)
  | cs => (takeNumber 4 cs).map fun (n, cs) => ((n : Int), cs)

/-- What follows a separator that may have blanks before it. -/
def takeSeparator (separator : Char) (cs : List Char) : Option (List Char) :=
  match cs.dropWhile isBlank with
  | c :: cs => if c = separator then some cs else none
  | [] => none

/-- The nanoseconds of a fraction, if there is one. -/
def takeFraction (cs : List Char) : Option (Nat × List Char) :=
  match cs with
  | '.' :: cs =>
    let digits := (cs.take 9).takeWhile Char.isDigit
    if digits.isEmpty then none
    else
      some (valueOf digits * Nat.pow 10 (9 - digits.length),
        (cs.drop digits.length).dropWhile Char.isDigit)
  | cs => some (0, cs)

/-- Two decimal digits. -/
def takePair (cs : List Char) : Option (Nat × List Char) :=
  match cs with
  | a :: b :: cs => if a.isDigit && b.isDigit then some (valueOf [a, b], cs) else none
  | _ => none

/-- An offset from UTC in seconds. -/
def takeOffset (cs : List Char) : Option (Int × List Char) :=
  let signed (sign : Int) (cs : List Char) : Option (Int × List Char) := do
    let (hours, cs) ← takePair cs
    let (minutes, cs) ← takePair (cs.dropWhile fun c => c = ':' || isBlank c)
    if 60 ≤ minutes then none
    else some (sign * ((hours : Int) * 3600 + minutes * 60), cs)
  match cs with
  | 'Z' :: cs | 'z' :: cs => some (0, cs)
  | u :: t :: c :: rest =>
    if u.toUpper = 'U' && t.toUpper = 'T' && c.toUpper = 'C' then some (0, rest)
    else if u = '+' then signed 1 (t :: c :: rest)
    else if u = '-' || u = '−' then signed (-1) (t :: c :: rest)
    else none
  | _ => none

/-- The instant of a date and a time of day at an offset from UTC. -/
def ofLocal? (year : Int) (month day hour minute second nano : Nat) (offset : Int) :
    Option Timestamp :=
  if year < firstYear || lastYear < year then none
  else if month < 1 || 12 < month || day < 1 || daysInMonth year month < day then none
  else if 23 < hour || 59 < minute || 60 < second then none
  else if offset ≤ -86400 || 86400 ≤ offset then none
  else
    let (second, nano) := if second = 60 then (59, nano + 1000000000) else (second, nano)
    let time : Int := (hour : Int) * 3600 + minute * 60 + second - offset
    let day := dayOf year month day + time / 86400
    let (utcYear, _, _) := dateOf day
    if utcYear < firstYear || lastYear < utcYear then none
    else some ⟨day, (time % 86400).toNat, nano⟩

/-- **The instant that a text denotes.** -/
def parseChars? (cs : List Char) : Option Timestamp := do
  let (year, cs) ← takeYear cs
  let cs ← takeSeparator '-' cs
  let (month, cs) ← takePart cs
  let cs ← takeSeparator '-' cs
  let (day, cs) ← takePart cs
  let cs ← match cs with
    | c :: cs => if c = 'T' || c = 't' || c = ' ' then some cs else none
    | [] => none
  let (hour, cs) ← takePart cs
  let cs ← takeSeparator ':' cs
  let (minute, cs) ← takePart cs
  let cs ← takeSeparator ':' cs
  let (second, cs) ← takePart cs
  let (nano, cs) ← takeFraction cs
  let (offset, cs) ← takeOffset (cs.dropWhile isBlank)
  if cs.all isBlank then ofLocal? year month day hour minute second nano offset else none

/-- The instant that a string denotes. -/
def parse? (s : String) : Option Timestamp :=
  parseChars? s.toList

/-! ### Writing -/

/-- A number with zeros before it up to a width. -/
def padded (width n : Nat) : List Char :=
  let digits := Nat.toDigits 10 n
  List.replicate (width - digits.length) '0' ++ digits

/-- A year: four digits, with a sign if it is negative or has more. -/
def yearChars (year : Int) : List Char :=
  if 0 ≤ year && year ≤ 9999 then padded 4 year.toNat
  else if year < 0 then '-' :: padded 4 year.natAbs
  else '+' :: padded 4 year.toNat

/-- Nanoseconds with their point: none, three, six or nine digits. -/
def fractionChars (nano : Nat) : List Char :=
  if nano = 0 then []
  else if nano % 1000000 = 0 then '.' :: padded 3 (nano / 1000000)
  else if nano % 1000 = 0 then '.' :: padded 6 (nano / 1000)
  else '.' :: padded 9 nano

/-- The characters of a timestamp's text. -/
def chars (t : Timestamp) : List Char :=
  let (year, month, day) := dateOf t.day
  let leap := 1000000000 ≤ t.nano
  let second := t.second % 60 + if leap then 1 else 0
  let nano := if leap then t.nano - 1000000000 else t.nano
  yearChars year ++ ['-'] ++ padded 2 month ++ ['-'] ++ padded 2 day ++ ['T'] ++
    padded 2 (t.second / 3600) ++ [':'] ++ padded 2 (t.second / 60 % 60) ++ [':'] ++
      padded 2 second ++ fractionChars nano ++ ['Z']

/-- **The text of a timestamp.** -/
def text (t : Timestamp) : String :=
  String.ofList t.chars

end Timestamp

end ChangeCapture
