/-!
# The calendar

Dates of the proleptic Gregorian calendar and their day numbers. Day 0 is 1970-01-01. A year is
found from a day number by a guess that is off by at most one.
-/

namespace TestWatch

/-- A calendar date; `Date.Valid` says which triples are dates. -/
structure Date where
  year : Int
  month : Nat
  day : Nat
  deriving DecidableEq, Repr

namespace Date

def isLeapYear (y : Int) : Bool := y % 4 == 0 && (y % 100 != 0 || y % 400 == 0)

/-- Days in the months before `month` (from 1), counted with the given length of February. -/
def daysBeforeMonth (leap : Bool) (month : Nat) : Nat :=
  let february := if leap then 1 else 0
  match month with
  | 0 | 1 => 0
  | 2 => 31
  | 3 => 59 + february
  | 4 => 90 + february
  | 5 => 120 + february
  | 6 => 151 + february
  | 7 => 181 + february
  | 8 => 212 + february
  | 9 => 243 + february
  | 10 => 273 + february
  | 11 => 304 + february
  | 12 => 334 + february
  | _ => 365 + february

def daysInMonth (y : Int) (month : Nat) : Nat :=
  daysBeforeMonth (isLeapYear y) (month + 1) - daysBeforeMonth (isLeapYear y) month

def daysBeforeYear (y : Int) : Int :=
  365 * y + (y - 1) / 4 - (y - 1) / 100 + (y - 1) / 400 + 1

def epoch : Int := 719528

def minYear : Int := -262143
def maxYear : Int := 262142

/-- A month of the year, a day of that month, and a year in range. -/
def Valid (d : Date) : Prop :=
  minYear ≤ d.year ∧ d.year ≤ maxYear ∧ 1 ≤ d.month ∧ d.month ≤ 12 ∧
    1 ≤ d.day ∧ d.day ≤ daysInMonth d.year d.month

instance (d : Date) : Decidable d.Valid := by unfold Valid; infer_instance

def toDay (d : Date) : Int :=
  daysBeforeYear d.year + daysBeforeMonth (isLeapYear d.year) d.month + (d.day - 1 : Nat) - epoch

/-- The year that holds a day counted from year 0. -/
def yearOf (n : Int) : Int :=
  let guess := n * 400 / 146097
  if n < daysBeforeYear guess then guess - 1
  else if daysBeforeYear (guess + 1) ≤ n then guess + 1
  else guess

def ofDay (day : Int) : Date :=
  let n := day + epoch
  let y := yearOf n
  let leap := isLeapYear y
  let rest := (n - daysBeforeYear y).toNat
  let month := ((List.range 12).find? (fun m => rest < daysBeforeMonth leap (m + 2))).getD 11 + 1
  ⟨y, month, rest - daysBeforeMonth leap month + 1⟩

end Date

end TestWatch
