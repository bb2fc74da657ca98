/-
LineTrace.Log.Timestamp — seconds since 1970 as date and time.

Universal time in the Gregorian calendar, before 1970 as well. The days are
counted in years that begin in March, so that a leap day is the last of its
year; four centuries are always as many days. A clock counts its seconds in a
machine word and its years in another, and what fits into neither has no date.
-/
import LineTrace.Failure.Basic
import LineTrace.Number.Double

namespace LineTrace

/-- A calendar date. -/
structure Date where
  year : Int
  month : Nat
  day : Nat
  deriving DecidableEq, Repr

/-- The days in four centuries. -/
def daysPerEra : Int := 146097

/-- The date that is `days` after the first of January 1970. -/
def Date.ofDays (days : Int) : Date :=
  let shifted := days + 719468
  let era := shifted.fdiv daysPerEra
  let dayOfEra := (shifted - era * daysPerEra).toNat
  let yearOfEra :=
    (dayOfEra - dayOfEra / 1460 + dayOfEra / 36524 - dayOfEra / 146096) / 365
  let dayOfYear := dayOfEra - (365 * yearOfEra + yearOfEra / 4 - yearOfEra / 100)
  let m := (5 * dayOfYear + 2) / 153
  let month := if m < 10 then m + 3 else m - 9
  let year : Int := era * 400 + yearOfEra + (if month ≤ 2 then 1 else 0)
  ⟨year, month, dayOfYear - (153 * m + 2) / 5 + 1⟩

/-- Two digits. -/
def twoDigits (n : Nat) : Text := Text.padLeft 2 48 (Text.ofNat n)

/-- The date with hyphens. -/
def Date.text (d : Date) : Text :=
  Text.ofInt d.year ++ "-" ++ twoDigits d.month ++ "-" ++ twoDigits d.day

/-- Date and time of a whole number of seconds since 1970. -/
def timestamp (seconds : Int) : Text :=
  let days := seconds.fdiv 86400
  let rest := (seconds - days * 86400).toNat
  (Date.ofDays days).text ++ "T" ++ twoDigits (rest / 3600) ++ ":" ++
    twoDigits (rest / 60 % 60) ++ ":" ++ twoDigits (rest % 60)

/-- The bound of the seconds that a clock can count. -/
def clockBound : Int := 9223372036854775808

/-- The bound of the years that a date can be asked for by. -/
def yearBound : Int := 2147483648

/-- Date and time of a whole number of seconds, if a clock has it: the seconds
have to fit into its word, the years since 1900 into that of its years, and so
has the year itself to be written. -/
def timestamp? (seconds : Int) : Except Fault Text :=
  let year := (Date.ofDays (seconds.fdiv 86400)).year
  if seconds < -clockBound ∨ clockBound ≤ seconds then
    .error (.tooLarge "timestamp out of range for platform time_t")
  else if year < 1900 - yearBound ∨ 1900 + yearBound ≤ year then
    .error (.file ⟨.overflow, []⟩)
  else if yearBound ≤ year then
    .error (.tooLarge "signed integer is greater than maximum")
  else .ok (timestamp seconds)

/-- Date and time of a moment that need not be a whole number of seconds; it
belongs to the second that began last. -/
def momentText (x : Double) : Except Fault Text :=
  match x, x.floor? with
  | _, some seconds => timestamp? seconds
  | .nan, none => .error (.badValue "Invalid value NaN (not a number)")
  | _, none => .error (.tooLarge "timestamp out of range for platform time_t")

end LineTrace
