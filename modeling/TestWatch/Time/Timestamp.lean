import TestWatch.Time.Calendar
import TestWatch.Time.Duration

/-!
# Timestamps

A point in time together with the offset from UTC in which it was recorded. The point is a count
of seconds and a fraction in nanoseconds; within a leap second the count stands still and the
fraction goes on past one second. Order and differences look at the point only.
-/

namespace TestWatch

/-- A point in time: UTC seconds since 1970, nanoseconds, and the recorded offset in seconds. -/
structure Timestamp where
  second : Int
  nano : Nat
  offset : Int
  deriving DecidableEq, Repr, Inhabited

namespace Timestamp

def daySeconds : Int := 86400

def nanosPerSecond : Nat := 1000000000

/-- The first second in range, and the first after the range. -/
def minSecond : Int := Date.toDay ⟨Date.minYear, 1, 1⟩ * daySeconds
def endSecond : Int := (Date.toDay ⟨Date.maxYear, 12, 31⟩ + 1) * daySeconds

def InRange (second : Int) : Prop := minSecond ≤ second ∧ second < endSecond

instance (s : Int) : Decidable (InRange s) := by unfold InRange; infer_instance

def isLeapSecond (t : Timestamp) : Bool := nanosPerSecond ≤ t.nano

def secondOfDay (t : Timestamp) : Int := t.second % daySeconds

def ofUnixNanos (n : Int) : Timestamp :=
  ⟨n / nanosPerSecond, (n % nanosPerSecond).toNat, 0⟩

/-- The points compare by second, then by fraction; the offset plays no part. -/
def before (a b : Timestamp) : Bool :=
  a.second < b.second || (a.second == b.second && a.nano < b.nano)

def sameInstant (a b : Timestamp) : Bool := a.second == b.second && a.nano == b.nano

/-- The later point, the first of the two if they are the same. -/
def latest (a b : Timestamp) : Timestamp := if a.before b then b else a

/-- Nanoseconds from `a` to `b`. A leap second that one of them lies in counts when the other
is at a later (for `a`) or an earlier (for `b`) time of day. -/
def nanosBetween (a b : Timestamp) : Int :=
  let leap : Int :=
    if a.secondOfDay < b.secondOfDay ∧ a.isLeapSecond then 1
    else if b.secondOfDay < a.secondOfDay ∧ b.isLeapSecond then -1
    else 0
  (b.second - a.second + leap) * nanosPerSecond + b.nano - a.nano

def between (a b : Timestamp) : Duration := ⟨(nanosBetween a b).toNat⟩

/-- The longest span that can be added: 2^63 - 1 milliseconds. -/
def maxSpan : Nat := (Nat.pow 2 63 - 1) * 1000000

/-- The point that is `d` later, or `none` if `d` is too long or the point is out of range.
A span that ends within the leap second it starts in moves the fraction alone. -/
def add? (t : Timestamp) (d : Duration) : Option Timestamp :=
  if maxSpan < d.nanos then none
  else
    let whole := d.nanos / nanosPerSecond
    let part := d.nanos % nanosPerSecond
    if t.isLeapSecond ∧ whole = 0 ∧ t.nano + part < 2 * nanosPerSecond then
      some { t with nano := t.nano + part }
    else
      let nano := (if t.isLeapSecond then t.nano - nanosPerSecond else t.nano) + part
      let second := t.second + whole + nano / nanosPerSecond
      if InRange second then some { t with second := second, nano := nano % nanosPerSecond }
      else none

/-- The point that is `d` later, or the same point where there is none. -/
def add (t : Timestamp) (d : Duration) : Timestamp := (t.add? d).getD t

def millis (t : Timestamp) : Int := t.second * 1000 + t.nano / 1000000

theorem before_iff {a b : Timestamp} :
    a.before b = true ↔ a.second < b.second ∨ a.second = b.second ∧ a.nano < b.nano := by
  simp [before]

theorem sameInstant_iff {a b : Timestamp} :
    a.sameInstant b = true ↔ ¬ a.before b = true ∧ ¬ b.before a = true := by
  rw [before_iff, before_iff, sameInstant, Bool.and_eq_true, beq_iff_eq, beq_iff_eq]
  omega

theorem not_before_trans {a b c : Timestamp} (hab : ¬ a.before b = true)
    (hbc : ¬ b.before c = true) : ¬ a.before c = true := by
  rw [before_iff] at *
  omega

theorem latest_eq (a b : Timestamp) : a.latest b = a ∨ a.latest b = b := by
  unfold latest
  split
  · exact .inr rfl
  · exact .inl rfl

theorem not_latest_before (a b : Timestamp) :
    ¬ (a.latest b).before a = true ∧ ¬ (a.latest b).before b = true := by
  unfold latest
  split
  · simp only [before_iff] at *
    omega
  · simp only [before_iff] at *
    omega

end Timestamp

end TestWatch
