import FramedSasl.Numeral

/-! Points in time as text: calendar date and time of day in UTC with milliseconds. -/

namespace FramedSasl

structure Date where
  year : Int
  month : Nat
  day : Nat
  deriving DecidableEq, Repr

/-- The Gregorian date `days` after 1970-01-01. Years are counted from the first of March, so that
a leap day is the last day of its year, and in eras of 400 years, which all have 146097 days. -/
def Date.ofDays (days : Int) : Date :=
  let sinceMarch := days + 719468
  let era := sinceMarch / 146097
  let dayOfEra := (sinceMarch % 146097).toNat
  let yearOfEra := (dayOfEra - dayOfEra / 1460 + dayOfEra / 36524 - dayOfEra / 146096) / 365
  let dayOfYear := dayOfEra - (365 * yearOfEra + yearOfEra / 4 - yearOfEra / 100)
  let monthFromMarch := (5 * dayOfYear + 2) / 153
  let month := if monthFromMarch < 10 then monthFromMarch + 3 else monthFromMarch - 9
  { year := era * 400 + yearOfEra + if month ≤ 2 then 1 else 0
    month
    day := dayOfYear - (153 * monthFromMarch + 2) / 5 + 1 }

/-- `2024-02-29T23:59:59.050Z` for a number of nanoseconds since 1970. Seconds and milliseconds are
both cut toward zero, so that before 1970 the milliseconds have a sign, behind the padding. -/
def timestamp (nanoseconds : Int) : Bytes :=
  let seconds := nanoseconds.tdiv 1000000000
  let milliseconds := nanoseconds.tdiv 1000000 - seconds * 1000
  let date := Date.ofDays (seconds / 86400)
  let secondOfDay := (seconds % 86400).toNat
  let two (n : Nat) : Bytes := zeroPadded 2 (decimal n)
  decimalInt date.year ++ text "-" ++ two date.month ++ text "-" ++ two date.day ++ text "T" ++
    two (secondOfDay / 3600) ++ text ":" ++ two (secondOfDay / 60 % 60) ++ text ":" ++
    two (secondOfDay % 60) ++ text "." ++ zeroPadded 3 (decimalInt milliseconds) ++ text "Z"

/-- A time stamp as people read it: a space for the T, and no Z. -/
def readableTime (stamp : Bytes) : Bytes := (stamp.map fun b => if b = 84 then 32 else b).dropLast

end FramedSasl
