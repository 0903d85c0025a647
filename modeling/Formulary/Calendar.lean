import Formulary.Number.Literal

/-!
# Dates and times

Dates of the calendar and times of a day, as texts.  Day, month and the parts of a time have two
digits, or one where the format is lenient.  No leap seconds.
-/

namespace Formulary.Calendar

/-- A number of at least `least` and at most two digits, and the text after it. -/
def pair? (least : Nat) (cs : List Char) : Option (Nat × List Char) :=
  let ds := (cs.take 2).takeWhile Number.isDecimalDigit
  if least ≤ ds.length then
    some (ds.foldl (fun n c => n * 10 + (c.toNat - 0x30)) 0, cs.drop ds.length)
  else none

/-- The text after the character `c`. -/
def after? (c : Char) (cs : List Char) : Option (List Char) :=
  if cs.head? == some c then some cs.tail else none

def isLeapYear (year : Nat) : Bool := year % 4 == 0 && (year % 100 != 0 || year % 400 == 0)

def daysIn (year month : Nat) : Nat :=
  if month == 2 then (if isLeapYear year then 29 else 28)
  else if [4, 6, 9, 11].contains month then 30
  else 31

/-- The text after a date: a year of four digits, a month and a day. -/
def date? (least : Nat) (cs : List Char) : Option (List Char) := do
  let (century, cs) ← pair? 2 cs
  let (years, cs) ← pair? 2 cs
  let (month, cs) ← pair? least (← after? '-' cs)
  let (day, cs) ← pair? least (← after? '-' cs)
  if 1 ≤ month && month ≤ 12 && 1 ≤ day && day ≤ daysIn (century * 100 + years) month then some cs
  else none

/-- The text after the parts of a second, if there are any. -/
def fraction (cs : List Char) : List Char :=
  match cs with
  | c :: d :: rest =>
    if (c == '.' || c == ',') && Number.isDecimalDigit d then
      rest.dropWhile Number.isDecimalDigit
    else cs
  | _ => cs

/-- The text after a time of day. -/
def time? (least : Nat) (cs : List Char) : Option (List Char) := do
  let (hour, cs) ← pair? least cs
  let (minute, cs) ← pair? least (← after? ':' cs)
  let (second, cs) ← pair? least (← after? ':' cs)
  if hour < 24 && minute < 60 && second < 60 then some (fraction cs) else none

/-- The text after the distance from universal time.  Distances of a whole day or hour are written
by some. -/
def zone? (cs : List Char) : Option (List Char) :=
  match cs with
  | 'Z' :: rest => some rest
  | c :: rest =>
    if c == '+' || c == '-' then do
      let (hours, rest) ← pair? 2 rest
      let (minutes, rest) ← pair? 2 (← after? ':' rest)
      if hours ≤ 24 && minutes ≤ 60 then some rest else none
    else none
  | [] => none

/-- Whether a reader takes the whole text. -/
def whole (read : List Char → Option (List Char)) (cs : List Char) : Bool := read cs == some []

/-- A date and a time with the character `mark` between them. -/
def dateTime? (least : Nat) (mark : Char) (cs : List Char) : Option (List Char) := do
  time? least (← after? mark (← date? least cs))

/-- A date and a time with its distance from universal time. -/
def instant? (least : Nat) (mark : Char) (cs : List Char) : Option (List Char) := do
  zone? (← dateTime? least mark cs)

end Formulary.Calendar
