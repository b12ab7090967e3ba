import AccessRules.Text.Number

/-! Instants in milliseconds since 1970, their calendar dates, and their RFC 3339 text. -/
namespace AccessRules

structure Instant where
  millis : Int64
  deriving DecidableEq, Repr, Inhabited

namespace Instant

/-- Days from 1970-01-01 to a date of the proleptic Gregorian calendar, whose years are counted
from March so that the leap day comes last. -/
def daysFromCivil (year : Int) (month day : Nat) : Int :=
  let y : Int := if month ≤ 2 then year - 1 else year
  let era := y.fdiv 400
  let yearOfEra := y - era * 400
  let monthFromMarch : Nat := (month + 9) % 12
  let dayOfYear : Int := ((153 * monthFromMarch + 2) / 5 + (day - 1) : Nat)
  era * 146097 + (yearOfEra * 365 + yearOfEra / 4 - yearOfEra / 100 + dayOfYear) - 719468

def civilFromDays (days : Int) : Int × Nat × Nat :=
  let z := days + 719468
  let era := z.fdiv 146097
  let dayOfEra := (z - era * 146097).toNat
  let yearOfEra := (dayOfEra - dayOfEra / 1460 + dayOfEra / 36524 - dayOfEra / 146096) / 365
  let dayOfYear := dayOfEra - (365 * yearOfEra + yearOfEra / 4 - yearOfEra / 100)
  let monthFromMarch := (5 * dayOfYear + 2) / 153
  let day := dayOfYear - (153 * monthFromMarch + 2) / 5 + 1
  let month := if monthFromMarch < 10 then monthFromMarch + 3 else monthFromMarch - 9
  (era * 400 + yearOfEra + (if month ≤ 2 then 1 else 0), month, day)

def isLeap (year : Nat) : Bool := year % 4 == 0 && (year % 100 != 0 || year % 400 == 0)

def daysInMonth (year month : Nat) : Nat :=
  if month = 2 then (if isLeap year then 29 else 28)
  else if month = 4 ∨ month = 6 ∨ month = 9 ∨ month = 11 then 30
  else 31

private def padded (width n : Nat) : String :=
  let text := toString n
  String.ofList (List.replicate (width - text.length) '0') ++ text

private def fraction (millis least : Nat) : String :=
  let digits := (padded 3 millis).toList
  let shorter :=
    if millis % 10 ≠ 0 then 3
    else if millis % 100 ≠ 0 then 2
    else if millis ≠ 0 then 1
    else 0
  String.ofList (digits.take (max least shorter))

private def dayPart (t : Instant) : Int := t.millis.toInt.fdiv 86400000
private def clock (t : Instant) : Nat := (t.millis.toInt - dayPart t * 86400000).toNat

def year (t : Instant) : Int := (civilFromDays t.dayPart).1

def toRfc3339 (t : Instant) : String :=
  let (year, month, day) := civilFromDays t.dayPart
  let ms := t.clock
  let date := padded 4 year.toNat ++ "-" ++ padded 2 month ++ "-" ++ padded 2 day
  let time := padded 2 (ms / 3600000) ++ ":" ++ padded 2 (ms / 60000 % 60) ++ ":" ++
    padded 2 (ms / 1000 % 60)
  let part := fraction (ms % 1000) 0
  date ++ "T" ++ time ++ (if part.isEmpty then "" else "." ++ part) ++ "Z"

def lastDisplayedYear : Int := 999999

/-- Date, time and offset, the hour without padding; a number of milliseconds outside the years
that are displayed. -/
def display (t : Instant) : String :=
  let (year, month, day) := civilFromDays t.dayPart
  if lastDisplayedYear < year ∨ year < -lastDisplayedYear then toString t.millis.toInt
  else
    let ms := t.clock
    let sign := if year < 0 then "-" else if 9999 < year then "+" else ""
    sign ++ padded 4 year.natAbs ++ "-" ++ padded 2 month ++ "-" ++ padded 2 day ++ " " ++
      toString (ms / 3600000) ++ ":" ++ padded 2 (ms / 60000 % 60) ++ ":" ++
      padded 2 (ms / 1000 % 60) ++ "." ++ fraction (ms % 1000) 1 ++ " +00:00:00"

private def digits? (n : Nat) (cs : List Char) : Option (Nat × List Char) :=
  let run := cs.take n
  if run.length = n ∧ run.all Text.isDigit then (Text.natural? 10 run).map (·, cs.drop n) else none

private def expect (c : Char) : List Char → Option (List Char)
  | d :: rest => if c = d then some rest else none
  | [] => none

private def nanoseconds (ds : List Char) : Nat :=
  (Text.natural? 10 ((ds ++ List.replicate 9 '0').take 9)).getD 0

private def offsetMinutes? : List Char → Option Int
  | ['Z'] => some 0
  | ['z'] => some 0
  | sign :: rest => do
    let (hours, rest) ← digits? 2 rest
    let rest ← expect ':' rest
    let (minutes, rest) ← digits? 2 rest
    if hours ≤ 23 ∧ minutes ≤ 59 ∧ rest.isEmpty then
      if sign = '+' then some (hours * 60 + minutes : Nat)
      else if sign = '-' then some (-(hours * 60 + minutes : Nat))
      else none
    else none
  | [] => none

private def endsMonth (days : Int) : Bool := (civilFromDays (days + 1)).2.2 == 1

/-- Reads an RFC 3339 date and time. Any one-byte character may stand between date and time, the
parts finer than a millisecond are cut towards 1970, and a leap second, which has to end a month in
UTC, counts as the instant before its end. -/
def ofRfc3339? (s : String) : Option Instant := do
  let (year, rest) ← digits? 4 s.toList
  let rest ← expect '-' rest
  let (month, rest) ← digits? 2 rest
  let rest ← expect '-' rest
  let (day, rest) ← digits? 2 rest
  let separator ← rest.head?
  if 128 ≤ separator.toNat then none
  let (hour, rest) ← digits? 2 (rest.drop 1)
  let rest ← expect ':' rest
  let (minute, rest) ← digits? 2 rest
  let rest ← expect ':' rest
  let (second, rest) ← digits? 2 rest
  let (nanos, rest) ← match rest with
    | '.' :: after =>
      let ds := after.takeWhile Text.isDigit
      if ds.isEmpty then none else some (nanoseconds ds, after.dropWhile Text.isDigit)
    | _ => some (0, rest)
  let offset ← offsetMinutes? rest
  if month < 1 ∨ 12 < month ∨ day < 1 ∨ daysInMonth year month < day ∨
      23 < hour ∨ 59 < minute ∨ 60 < second then
    none
  let leap := second == 60
  let (second, nanos) := if leap then (59, 999999999) else (second, nanos)
  let minutes := daysFromCivil year month day * 1440 + (hour * 60 + minute : Nat) - offset
  if leap ∧ ¬ (minutes % 1440 = 1439 ∧ endsMonth (minutes / 1440)) then none
  let total : Int := (minutes * 60 + second) * 1000000000 + nanos
  some ⟨Int64.ofInt (total.tdiv 1000000)⟩

end Instant
end AccessRules
