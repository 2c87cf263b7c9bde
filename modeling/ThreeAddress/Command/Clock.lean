/-!
# Points in time

A point in time as a text of the form `2001-09-09T01:46:40.000000000+00:00`.
-/

namespace ThreeAddress.Command

/-- The decimal digits of a number, with zeros in front up to the given width. -/
def padded (width n : Nat) : String :=
  let digits := toString n
  "".pushn '0' (width - digits.length) ++ digits

/-- The year, the month and the day that lie so many days after the first day of 1970.

Years are counted from March on, so that the leap day is the last one, and 719468 days lie
between the first of March of the year 0 and the start of 1970. -/
def civilDate (days : Nat) : Nat × Nat × Nat :=
  let d := days + 719468
  let era := d / 146097
  let dayOfEra := d % 146097
  let yearOfEra := (dayOfEra - dayOfEra / 1460 + dayOfEra / 36524 - dayOfEra / 146096) / 365
  let dayOfYear := dayOfEra - (365 * yearOfEra + yearOfEra / 4 - yearOfEra / 100)
  let shifted := (5 * dayOfYear + 2) / 153
  let day := dayOfYear - (153 * shifted + 2) / 5 + 1
  let month := if shifted < 10 then shifted + 3 else shifted - 9
  let year := yearOfEra + era * 400
  (if month ≤ 2 then year + 1 else year, month, day)

/-- The text of the time that lies so many seconds and nanoseconds after the start of 1970. -/
def timeText (seconds nanos : Nat) : String :=
  let (year, month, day) := civilDate (seconds / 86400)
  let second := seconds % 86400
  padded 4 year ++ "-" ++ padded 2 month ++ "-" ++ padded 2 day ++ "T"
    ++ padded 2 (second / 3600) ++ ":" ++ padded 2 (second / 60 % 60) ++ ":"
    ++ padded 2 (second % 60) ++ "." ++ padded 9 nanos ++ "+00:00"

end ThreeAddress.Command
