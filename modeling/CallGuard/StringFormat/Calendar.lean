import CallGuard.Number.Numeral
import CallGuard.Text.Blank

/-!
# Dates and timestamps

Dates of the proleptic Gregorian calendar.  A date is year, month and day with hyphens
between; each number may have blanks in front, month and day have one or two digits, and the
year has up to four, or any number after a sign.  A timestamp is strict: fixed widths, a
separator, a time with an optional fraction, and an offset.
-/

namespace CallGuard

def isLeapYear (year : Int) : Bool := year % 4 == 0 && (year % 100 != 0 || year % 400 == 0)

/-- The length of a month. -/
def daysInMonth (year : Int) (month : Nat) : Nat :=
  if month = 2 then if isLeapYear year then 29 else 28
  else if month = 4 || month = 6 || month = 9 || month = 11 then 30
  else 31

/-- The years that dates reach back and forward to. -/
def firstYear : Int := -262143

def lastYear : Int := 262142

/-- Whether there is such a day. -/
def isCalendarDate (year : Int) (month day : Nat) : Bool :=
  firstYear ≤ year && year ≤ lastYear && 1 ≤ month && month ≤ 12 && 1 ≤ day
    && day ≤ daysInMonth year month

/-- One to `width` digits in front, and what follows them. -/
def readPadded? (width : Nat) (text : List Char) : Option (Nat × List Char) :=
  let digits := (text.take width).takeWhile Char.isDigit
  if digits.isEmpty then none else some (digitsValue digits, text.drop digits.length)

/-- A year in front: after a sign of any length, otherwise of up to four digits. -/
def readYear? : List Char → Option (Int × List Char)
  | '-' :: rest => (readPadded? rest.length rest).map fun (n, after) => (-(n : Int), after)
  | '+' :: rest => (readPadded? rest.length rest).map fun (n, after) => ((n : Int), after)
  | text => (readPadded? 4 text).map fun (n, after) => ((n : Int), after)

/-- What follows a character in front. -/
def afterChar? (c : Char) : List Char → Option (List Char)
  | d :: rest => if c = d then some rest else none
  | [] => none

/-- The year, month and day written in a text. -/
def readDate? (text : List Char) : Option (Int × Nat × Nat) := do
  let (year, afterYear) ← readYear? (trimStart text)
  let (month, afterMonth) ← readPadded? 2 (trimStart (← afterChar? '-' afterYear))
  let (day, rest) ← readPadded? 2 (trimStart (← afterChar? '-' afterMonth))
  if rest.isEmpty then return (year, month, day) else none

/-- Whether a text is a date. -/
def isDate (text : List Char) : Bool :=
  match readDate? text with
  | some (year, month, day) => isCalendarDate year month day
  | none => false

/-- Exactly `width` digits in front, and what follows them. -/
def readFixed? (width : Nat) (text : List Char) : Option (Nat × List Char) :=
  let digits := text.take width
  if digits.length == width && digits.all Char.isDigit then
    some (digitsValue digits, text.drop width)
  else
    none

/-- What follows an optional fraction, a point and one or more digits. -/
def skipFraction? : List Char → Option (List Char)
  | '.' :: rest =>
    if (rest.takeWhile Char.isDigit).isEmpty then none else some (rest.dropWhile Char.isDigit)
  | text => some text

/-- Whether a text is an offset: `Z` in either case, or a sign, hours, a colon and minutes. -/
def isOffset : List Char → Bool
  | [c] => c = 'Z' || c = 'z'
  | sign :: rest =>
    (sign = '+' || sign = '-' || sign = '−') &&
      match readFixed? 2 rest with
      | some (hours, ':' :: afterColon) =>
        hours ≤ 23 &&
          match readFixed? 2 afterColon with
          | some (minutes, []) => minutes ≤ 59
          | _ => false
      | _ => false
  | [] => false

/-- Whether a text is a timestamp.  Second sixty is a leap second and may follow any
    minute. -/
def isTimestamp (text : List Char) : Bool :=
  (do
    let (year, afterYear) ← readFixed? 4 text
    let (month, afterMonth) ← readFixed? 2 (← afterChar? '-' afterYear)
    let (day, afterDay) ← readFixed? 2 (← afterChar? '-' afterMonth)
    let time ← (afterChar? 'T' afterDay <|> afterChar? 't' afterDay <|> afterChar? ' ' afterDay)
    let (hour, afterHour) ← readFixed? 2 time
    let (minute, afterMinute) ← readFixed? 2 (← afterChar? ':' afterHour)
    let (second, afterSecond) ← readFixed? 2 (← afterChar? ':' afterMinute)
    let offset ← skipFraction? afterSecond
    return isCalendarDate year month day && hour ≤ 23 && minute ≤ 59 && second ≤ 60
      && isOffset offset).getD false

end CallGuard
