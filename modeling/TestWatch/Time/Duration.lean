import TestWatch.Number.Decimal

/-!
# Durations

A span of time that is not negative, counted in nanoseconds. It is read from seconds given as a
double, by rounding the exact value to the nearest nanosecond, and scaled by a replay rate.
-/

namespace TestWatch

structure Duration where
  nanos : Nat
  deriving DecidableEq, Repr, Inhabited

namespace Duration

def zero : Duration := ⟨0⟩

/-- The whole seconds of a duration fit in 64 bits. -/
def secondLimit : Nat := Nat.pow 2 64

def ofMillis (n : Nat) : Duration := ⟨n * 1000000⟩

instance : LE Duration := ⟨fun a b => a.nanos ≤ b.nanos⟩
instance : LT Duration := ⟨fun a b => a.nanos < b.nanos⟩
instance (a b : Duration) : Decidable (a ≤ b) := inferInstanceAs (Decidable (a.nanos ≤ b.nanos))
instance (a b : Duration) : Decidable (a < b) := inferInstanceAs (Decidable (a.nanos < b.nanos))

theorem le_def {a b : Duration} : a ≤ b ↔ a.nanos ≤ b.nanos := Iff.rfl
theorem lt_def {a b : Duration} : a < b ↔ a.nanos < b.nanos := Iff.rfl

/-- What is left of `a` after `b`; nothing if `b` is longer. -/
def minus (a b : Duration) : Duration := ⟨a.nanos - b.nanos⟩

def min (a b : Duration) : Duration := ⟨Nat.min a.nanos b.nanos⟩

def ofMagnitude? (x : Magnitude) : Option Duration :=
  if x.num < secondLimit * x.den then some ⟨x.roundTo 1000000000⟩ else none

/-- Seconds that are finite, not negative and in range. -/
def ofSeconds? (x : Binary64) : Option Duration := x.nonneg?.bind ofMagnitude?

/-- Seconds as an event reports them: what cannot be read is no time at all. -/
def ofSeconds (x : Binary64) : Duration := (ofSeconds? x).getD zero

/-- The duration in seconds: whole seconds and the fraction are rounded each, then their sum. -/
def seconds? (d : Duration) : Option Magnitude := do
  let whole ← Magnitude.ofQuotient? (d.nanos / 1000000000) 1
  let part ← Magnitude.ofQuotient? (d.nanos % 1000000000) 1000000000
  whole.add part

def seconds (d : Duration) : Magnitude := d.seconds?.getD .zero

/-- Wall time observed during a replay, turned back into time of the recording: a rate of one half
replays twice as fast, so a second of wall time is two recorded seconds. Without a rate above zero,
or where the result is out of range, the duration stays as it is. -/
def rescale (d : Duration) (rate : Option Binary64) : Duration :=
  match rate.bind Binary64.positive? with
  | some r => ((d.seconds.div r).bind ofMagnitude?).getD d
  | none => d

/-- How long to wait before the second of two events, given the recorded delay between them.
Without a rate above zero there is no wait. -/
def replayDelay (d : Duration) (rate : Binary64) : Duration :=
  match rate.positive? with
  | some r => ((d.seconds.mul r).bind ofMagnitude?).getD zero
  | none => zero

end Duration

end TestWatch
