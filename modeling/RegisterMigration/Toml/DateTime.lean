import RegisterMigration.Toml.Number

/-!
# TOML dates and times

A date, a time of day, or both with an optional offset from universal time. They are only
recognised: the readers return what follows. A date has to be one of the calendar, and a
minute may have sixty-one seconds.
-/

namespace RegisterMigration.Toml

/-- Reads a number of exactly `n` decimal digits. -/
def fixedDigits? (n : Nat) (s : List Char) : Option (Nat × List Char) :=
  let ds := s.take n
  if ds.length = n ∧ ds.all isDecimal then some (Text.numberOf 10 ds, s.drop n) else none

/-- Takes one particular character. -/
def expect? (c : Char) : List Char → Option (List Char)
  | d :: s => if c = d then some s else none
  | [] => none

/-- The number of days of a month in the Gregorian calendar. -/
def daysInMonth (year month : Nat) : Nat :=
  if month = 2 then
    if year % 4 = 0 ∧ (year % 100 ≠ 0 ∨ year % 400 = 0) then 29 else 28
  else if month = 4 ∨ month = 6 ∨ month = 9 ∨ month = 11 then 30
  else 31

/-- What follows a date such as `1979-05-27`. -/
def date? (s : List Char) : Option (List Char) := do
  let (year, s) ← fixedDigits? 4 s
  let s ← expect? '-' s
  let (month, s) ← fixedDigits? 2 s
  let s ← expect? '-' s
  let (day, s) ← fixedDigits? 2 s
  if 1 ≤ month ∧ month ≤ 12 ∧ 1 ≤ day ∧ day ≤ daysInMonth year month then some s else none

/-- What follows hours and minutes such as `07:32`. -/
def hourMinute? (s : List Char) : Option (List Char) := do
  let (hour, s) ← fixedDigits? 2 s
  let s ← expect? ':' s
  let (minute, s) ← fixedDigits? 2 s
  if hour ≤ 23 ∧ minute ≤ 59 then some s else none

/-- What follows a time of day such as `07:32:00.5`. -/
def time? (s : List Char) : Option (List Char) := do
  let s ← hourMinute? s
  let s ← expect? ':' s
  let (second, s) ← fixedDigits? 2 s
  if 60 < second then none
  else
    match s with
    | '.' :: s =>
      let rest := s.dropWhile isDecimal
      if rest.length < s.length then some rest else none
    | s => some s

/-- What follows an optional offset such as `Z` or `-07:00`. -/
def skipOffset (s : List Char) : List Char :=
  match s with
  | 'Z' :: rest => rest
  | 'z' :: rest => rest
  | '+' :: rest => (hourMinute? rest).getD s
  | '-' :: rest => (hourMinute? rest).getD s
  | _ => s

/-- What follows a date, a time, or a date and a time. -/
def dateTime? (s : List Char) : Option (List Char) :=
  match date? s with
  | none => time? s
  | some rest =>
    match rest with
    | c :: t =>
      if c = 'T' ∨ c = 't' ∨ c = ' ' then
        match time? t with
        | some rest => some (skipOffset rest)
        | none => some rest
      else some rest
    | [] => some rest

end RegisterMigration.Toml
