import LogicalTable.Text.Numeral

/-! Dates of the proleptic Gregorian calendar, and their count of days from 1970-01-01. -/
namespace LogicalTable

def isLeapYear (y : Int) : Bool := y % 4 = 0 && (y % 100 ≠ 0 || y % 400 = 0)

def daysInMonth (y : Int) (m : Nat) : Nat :=
  if m = 2 then (if isLeapYear y then 29 else 28)
  else if m = 4 ∨ m = 6 ∨ m = 9 ∨ m = 11 then 30 else 31

def minYear : Int := -262143

def maxYear : Int := 262142

def IsDate (year : Int) (month day : Nat) : Prop :=
  minYear ≤ year ∧ year ≤ maxYear ∧ 1 ≤ month ∧ month ≤ 12 ∧
    1 ≤ day ∧ day ≤ daysInMonth year month

instance (y : Int) (m d : Nat) : Decidable (IsDate y m d) :=
  inferInstanceAs (Decidable (_ ∧ _))

structure Date where
  year : Int
  month : Nat
  day : Nat
  exist : IsDate year month day
  deriving DecidableEq, Repr

namespace Date

def ofParts? (year : Int) (month day : Nat) : Option Date :=
  if h : IsDate year month day then some ⟨year, month, day, h⟩ else none

/-- Days from 0001-01-01 to the first of January. -/
def daysBeforeYear (y : Int) : Int := 365 * (y - 1) + (y - 1) / 4 - (y - 1) / 100 + (y - 1) / 400

def daysBeforeMonth (y : Int) (m : Nat) : Nat :=
  ((List.range (m - 1)).map fun k => daysInMonth y (k + 1)).foldr (· + ·) 0

/-- Days from 0001-01-01 to 1970-01-01. -/
def epochDays : Int := 719162

/-- The day of the era, of which 0001-01-01 is day one. -/
def eraDay (d : Date) : Int := daysBeforeYear d.year + daysBeforeMonth d.year d.month + d.day

/-- Days from 1970-01-01. -/
def dayNumber (d : Date) : Int := d.eraDay - 1 - epochDays

/-- The year of a day counted from 0001-01-01, and the days before it in that year: whole spans of
400, 100, 4 years and single years, where the last century and the last year of a span are the
longer ones. -/
def yearOf (n : Int) : Int × Nat :=
  let n400 := n / 146097
  let r400 := n % 146097
  let n100 := min 3 (r400 / 36524)
  let r100 := r400 - 36524 * n100
  let n4 := r100 / 1461
  let r4 := r100 % 1461
  let n1 := min 3 (r4 / 365)
  (400 * n400 + 100 * n100 + 4 * n4 + n1 + 1, (r4 - 365 * n1).toNat)

def monthOf (y : Int) : (months m rest : Nat) → Nat × Nat
  | 0, m, rest => (m, rest + 1)
  | months + 1, m, rest =>
    if rest < daysInMonth y m then (m, rest + 1)
    else monthOf y months (m + 1) (rest - daysInMonth y m)

def ofEraDay? (n : Int) : Option Date :=
  let (year, rest) := yearOf (n - 1)
  let (month, day) := monthOf year 11 1 rest
  ofParts? year month day

def ofDayNumber? (n : Int) : Option Date := ofEraDay? (n + epochDays + 1)

def next? (d : Date) : Option Date :=
  if d.day < daysInMonth d.year d.month then ofParts? d.year d.month (d.day + 1)
  else if d.month < 12 then ofParts? d.year (d.month + 1) 1
  else ofParts? (d.year + 1) 1 1

def first : Date := ⟨minYear, 1, 1, by decide⟩

def last : Date := ⟨maxYear, 12, 31, by decide⟩

def padded (width n : Nat) : String :=
  let digits := Nat.toDigits 10 n
  String.ofList (List.replicate (width - digits.length) '0' ++ digits)

/-- Four digits for the years 0 to 9999, a sign before all others. -/
def yearText (y : Int) : String :=
  if 0 ≤ y ∧ y ≤ 9999 then padded 4 y.toNat
  else (if y < 0 then "-" else "+") ++ padded 4 y.natAbs

def text (d : Date) : String := yearText d.year ++ "-" ++ padded 2 d.month ++ "-" ++ padded 2 d.day

end Date
end LogicalTable
