/-! # Timestamps

Seconds since the beginning of 1970 as date and time of day in UTC. -/

namespace TestMatrix

structure Date where
  year : Nat
  month : Nat
  day : Nat

/-- The date of a day counted from the first day of March of the year zero. In such a year the leap
day comes last, and months are told apart by their day in it. -/
def Date.ofMarchDay (days : Nat) : Date :=
  let era := days / 146097
  let dayOfEra := days % 146097
  let yearOfEra := (dayOfEra - dayOfEra / 1460 + dayOfEra / 36524 - dayOfEra / 146096) / 365
  let dayOfYear := dayOfEra - (365 * yearOfEra + yearOfEra / 4 - yearOfEra / 100)
  let marchMonth := (5 * dayOfYear + 2) / 153
  let day := dayOfYear - (153 * marchMonth + 2) / 5 + 1
  let year := era * 400 + yearOfEra
  if marchMonth < 10 then ⟨year, marchMonth + 3, day⟩ else ⟨year + 1, marchMonth - 9, day⟩

/-- The number of days from the first day of March of the year zero to the beginning of 1970. -/
def daysBefore1970 : Nat := 719468

/-- A number with at least two digits. -/
def twoDigits (n : Nat) : String := if n < 10 then s!"0{n}" else toString n

def timestamp (seconds : Nat) : String :=
  let date := Date.ofMarchDay (seconds / 86400 + daysBefore1970)
  let month := twoDigits date.month
  let day := twoDigits date.day
  let hour := twoDigits (seconds / 3600 % 24)
  let minute := twoDigits (seconds / 60 % 60)
  let second := twoDigits (seconds % 60)
  s!"{date.year}-{month}-{day}T{hour}:{minute}:{second}+00:00"

end TestMatrix
