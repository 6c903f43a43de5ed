/-!
# Points in time

A point in time is a number of seconds since the start of 1970 (in the time scale in which every day has 86400 seconds)
and a number of nanoseconds; a leap second is a second 59 with a billion nanoseconds or more. Rows carry it as a text
of the Gregorian calendar.

Times to live are compared and shifted in whole seconds. Differences and products that leave the signed 64-bit range
stop at its ends, so that a window of any length can be taken off any time.
-/

namespace PropertyGraph

/-- A point in time. -/
structure Instant where
  seconds : Int64
  nanos : Nat
  deriving DecidableEq, Repr, Inhabited

/-- A day of the Gregorian calendar. -/
structure Day where
  year : Int
  month : Nat
  day : Nat
  deriving DecidableEq, Repr

/-- The day that is so many days after the first of January 1970. Years are counted from March, so that a leap day ends
its year: a period of 400 years has 146097 days, and the month follows from the day by a linear rule. -/
def Day.ofEpoch (days : Int) : Day :=
  let shifted := days + 719468
  let period := shifted / 146097
  let inPeriod := (shifted % 146097).toNat
  let yearOfPeriod := (inPeriod - inPeriod / 1460 + inPeriod / 36524 - inPeriod / 146096) / 365
  let dayOfYear := inPeriod - (365 * yearOfPeriod + yearOfPeriod / 4 - yearOfPeriod / 100)
  let fromMarch := (5 * dayOfYear + 2) / 153
  let month := if fromMarch < 10 then fromMarch + 3 else fromMarch - 9
  ⟨yearOfPeriod + period * 400 + (if month ≤ 2 then 1 else 0), month, dayOfYear - (153 * fromMarch + 2) / 5 + 1⟩

/-- A number with at least so many digits. -/
def padded (width n : Nat) : String :=
  let digits := toString n
  String.ofList (List.replicate (width - digits.length) '0') ++ digits

/-- A year in a timestamp: four digits, and a sign where it lies outside them. -/
def yearText (year : Int) : String :=
  if year < 0 then "-" ++ padded 4 year.natAbs
  else if year > 9999 then "+" ++ toString year
  else padded 4 year.toNat

/-- A point in time as rows carry it, to the nanosecond, in UTC. -/
def Instant.timestamp (instant : Instant) : String :=
  let seconds := instant.seconds.toInt
  let day := Day.ofEpoch (seconds / 86400)
  let ofDay := (seconds % 86400).toNat
  let leap := if instant.nanos ≥ 1000000000 then 1 else 0
  yearText day.year ++ "-" ++ padded 2 day.month ++ "-" ++ padded 2 day.day ++ "T" ++ padded 2 (ofDay / 3600) ++ ":" ++
    padded 2 (ofDay / 60 % 60) ++ ":" ++ padded 2 (ofDay % 60 + leap) ++ "." ++
      padded 9 (instant.nanos - leap * 1000000000) ++ "Z"

/-- The signed 64-bit integer nearest to an integer. -/
def clampInt64 (n : Int) : Int64 :=
  if n < Int64.minValue.toInt then Int64.minValue
  else if n > Int64.maxValue.toInt then Int64.maxValue
  else Int64.ofInt n

/-- The difference of two times, kept in range. -/
def minusClamped (a b : Int64) : Int64 := clampInt64 (a.toInt - b.toInt)

/-- The product of two numbers of seconds, kept in range. -/
def timesClamped (a b : Int64) : Int64 := clampInt64 (a.toInt * b.toInt)

end PropertyGraph
