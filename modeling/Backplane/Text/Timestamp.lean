/-!
# `Backplane.Text.Timestamp`: points in time as dates

A point in time is a number of milliseconds since the start of 1970 in
Coordinated Universal Time, and is shown as a date and a time of day of
the Gregorian calendar.
-/

set_option autoImplicit false

namespace Backplane.Text.Timestamp

/-- A calendar date. -/
structure Date where
  year : Int
  month : Nat
  day : Nat
deriving Repr, DecidableEq

/-- The date of a day, counted from the first day of 1970. The count is
moved to the first of March of the year zero, so that a leap day ends its
year, and split into eras of 400 years. -/
def dateOfDay (day : Int) : Date :=
  let z := day + 719468
  let era := Int.fdiv z 146097
  let dayOfEra := (z - era * 146097).toNat
  let yearOfEra :=
    (dayOfEra - dayOfEra / 1460 + dayOfEra / 36524 - dayOfEra / 146096) / 365
  let dayOfYear := dayOfEra - (365 * yearOfEra + yearOfEra / 4 - yearOfEra / 100)
  let shifted := (5 * dayOfYear + 2) / 153
  let month := if shifted < 10 then shifted + 3 else shifted - 9
  { year := yearOfEra + era * 400 + if month ≤ 2 then 1 else 0
    month
    day := dayOfYear - (153 * shifted + 2) / 5 + 1 }

/-- The calendar has dates from the first day of the year -262143 to the last one
of the year 262142. -/
def isDate (millis : Int) : Bool :=
  -8334601228800000 ≤ millis && millis ≤ 8210266876799999

example :
    dateOfDay (Int.fdiv (-8334601228800000) 86400000) = ⟨-262143, 1, 1⟩ ∧
    dateOfDay (Int.fdiv 8210266876799999 86400000) = ⟨262142, 12, 31⟩ := by
  decide

/-- A number with at least `width` digits. -/
def padded (width n : Nat) : String :=
  let digits := toString n
  String.ofList (List.replicate (width - digits.length) '0') ++ digits

/-- A year has four digits, and a sign too if four do not do. -/
def yearText (year : Int) : String :=
  if 0 ≤ year ∧ year ≤ 9999 then padded 4 year.toNat
  else (if year < 0 then "-" else "+") ++ padded 4 year.natAbs

/-- A point in time; a fraction is shown if there is one. -/
def render (millis : Int) : String :=
  let day := Int.fdiv millis 86400000
  let rest := (millis - day * 86400000).toNat
  let date := dateOfDay day
  let seconds := rest / 1000
  let fraction := rest % 1000
  yearText date.year ++ "-" ++ padded 2 date.month ++ "-" ++ padded 2 date.day ++ "T"
    ++ padded 2 (seconds / 3600) ++ ":" ++ padded 2 (seconds / 60 % 60) ++ ":"
    ++ padded 2 (seconds % 60)
    ++ (if fraction = 0 then "" else "." ++ padded 3 fraction) ++ "Z"

end Backplane.Text.Timestamp
