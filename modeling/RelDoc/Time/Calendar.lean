/-!
# Days, dates and clock times

The proleptic Gregorian calendar, counted from the epoch, 1 January 1970. A date is found by
counting days from 1 March of year 0, so that a leap day is the last day of its year, in eras of
400 years that are 146097 days long.
-/

namespace RelDoc

structure Date where
  year : Int
  month : Nat
  day : Nat
deriving DecidableEq

namespace Date

/-- The date a number of days after the epoch. -/
def ofDays (days : Int) : Date :=
  let shifted := days + 719468
  let era := shifted.fdiv 146097
  let dayOfEra := (shifted.fmod 146097).toNat
  let yearOfEra := (dayOfEra - dayOfEra / 1460 + dayOfEra / 36524 - dayOfEra / 146096) / 365
  let dayOfYear := dayOfEra - (365 * yearOfEra + yearOfEra / 4 - yearOfEra / 100)
  let monthFromMarch := (5 * dayOfYear + 2) / 153
  let day := dayOfYear - (153 * monthFromMarch + 2) / 5 + 1
  let month := if monthFromMarch < 10 then monthFromMarch + 3 else monthFromMarch - 9
  let year := (yearOfEra : Int) + 400 * era + (if month ≤ 2 then 1 else 0)
  ⟨year, month, day⟩

end Date

structure Clock where
  hour : Nat
  minute : Nat
  second : Nat
  milli : Nat
deriving DecidableEq

/-- A date and a time of day in universal time. -/
structure Moment where
  date : Date
  clock : Clock
deriving DecidableEq

namespace Moment

/-- The moment a number of milliseconds after the epoch. -/
def ofMillis (millis : Int) : Moment :=
  let ms := (millis.fmod 86400000).toNat
  ⟨Date.ofDays (millis.fdiv 86400000), ⟨ms / 3600000, ms / 60000 % 60, ms / 1000 % 60, ms % 1000⟩⟩

end Moment

def padded (width n : Nat) : String :=
  let digits := Nat.toDigits 10 n
  String.ofList (List.replicate (width - digits.length) '0' ++ digits)

/-- The digits of a fraction of a second in thousandths, without trailing zeros. -/
def Clock.fraction (c : Clock) : List Char :=
  ((padded 3 c.milli).toList.reverse.dropWhile (· = '0')).reverse

/-- A year of at least four digits, with a sign if it is negative. -/
def Date.yearText (d : Date) : String :=
  (if d.year < 0 then "-" else "") ++ padded 4 d.year.natAbs

end RelDoc
