/-!
Days of the proleptic Gregorian calendar, counted from 1970-01-01.
-/

namespace WorkflowEngine

/-- A day, counted from 1970-01-01. -/
structure Date where
  day : Int
  deriving DecidableEq, Repr, Ord

namespace Date

instance : Inhabited Date := ⟨⟨0⟩⟩

instance : LT Date := ⟨fun a b => a.day < b.day⟩
instance : LE Date := ⟨fun a b => a.day ≤ b.day⟩
instance (a b : Date) : Decidable (a < b) := inferInstanceAs (Decidable (a.day < b.day))
instance (a b : Date) : Decidable (a ≤ b) := inferInstanceAs (Decidable (a.day ≤ b.day))

def isLeap (year : Int) : Bool :=
  year % 4 == 0 && (year % 100 != 0 || year % 400 == 0)

def daysInMonth (year : Int) (month : Nat) : Nat :=
  match month with
  | 2 => if isLeap year then 29 else 28
  | 4 | 6 | 9 | 11 => 30
  | _ => 31

/-- The day number of a date. Years start in March here, so that the leap day comes last. -/
def dayNumber (year : Int) (month day : Nat) : Int :=
  let y := if month ≤ 2 then year - 1 else year
  let era := y / 400
  let yearOfEra := y % 400
  let shifted : Int := (month + 9) % 12
  let dayOfYear := (153 * shifted + 2) / 5 + day - 1
  let dayOfEra := yearOfEra * 365 + yearOfEra / 4 - yearOfEra / 100 + dayOfYear
  era * 146097 + dayOfEra - 719468

/-- The years that dates may have. -/
def minYear : Int := -262143
def maxYear : Int := 262142

def minDay : Int := dayNumber minYear 1 1
def maxDay : Int := dayNumber maxYear 12 31

/-- The day of a year, a month and a day of the month, if there is such a day. -/
def ofYmd? (year : Int) (month day : Nat) : Option Date :=
  if minYear ≤ year ∧ year ≤ maxYear ∧ 1 ≤ month ∧ month ≤ 12 ∧ 1 ≤ day ∧ day ≤ daysInMonth year month then
    some ⟨dayNumber year month day⟩
  else none

/-- Year, month and day of the month. -/
def ymd (d : Date) : Int × Nat × Nat :=
  let z := d.day + 719468
  let era := z / 146097
  let dayOfEra := z % 146097
  let yearOfEra := (dayOfEra - dayOfEra / 1460 + dayOfEra / 36524 - dayOfEra / 146096) / 365
  let dayOfYear := dayOfEra - (365 * yearOfEra + yearOfEra / 4 - yearOfEra / 100)
  let shifted := (5 * dayOfYear + 2) / 153
  let day := (dayOfYear - (153 * shifted + 2) / 5 + 1).toNat
  let month := (if shifted < 10 then shifted + 3 else shifted - 9).toNat
  let year := yearOfEra + era * 400 + (if month ≤ 2 then 1 else 0)
  (year, month, day)

/-- The date some days later, if it lies within the calendar. -/
def add? (d : Date) (days : Int) : Option Date :=
  let n := d.day + days
  if minDay ≤ n ∧ n ≤ maxDay then some ⟨n⟩ else none

/-- The decimal digits of `n`, filled up with zeros to the given width. -/
def padded (width n : Nat) : String :=
  let s := toString n
  String.ofList (List.replicate (width - s.length) '0') ++ s

/-- Four digits, or a sign and at least four digits outside of the years 0 to 9999. -/
def yearText (year : Int) : String :=
  if 0 ≤ year ∧ year ≤ 9999 then padded 4 year.toNat
  else (if year < 0 then "-" else "+") ++ padded (if year < 0 then 4 else 5) year.natAbs

/-- The text `YYYY-MM-DD`. -/
def text (d : Date) : String :=
  let (year, month, day) := d.ymd
  yearText year ++ "-" ++ padded 2 month ++ "-" ++ padded 2 day

instance : ToString Date := ⟨text⟩

end Date

end WorkflowEngine
