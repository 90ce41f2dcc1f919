import TestWatch.Time.Timestamp

/-!
# Spans between points in time

Outside of leap seconds a point in time is a number of nanoseconds. Order, differences and sums of
points are those of the numbers, so a span that was added is the difference afterwards.
-/

namespace TestWatch
namespace Timestamp

def nanos (t : Timestamp) : Int := t.second * nanosPerSecond + t.nano

variable {a b c t u : Timestamp} {d : Duration}

theorem nano_lt (h : t.isLeapSecond = false) : t.nano < nanosPerSecond := by
  simpa [isLeapSecond] using h

theorem nanosBetween_eq (ha : a.isLeapSecond = false) (hb : b.isLeapSecond = false) :
    nanosBetween a b = b.nanos - a.nanos := by
  simp only [nanosBetween, nanos, ha, hb, Bool.false_eq_true, and_false, ↓reduceIte,
    nanosPerSecond]
  omega

theorem before_iff_nanos (ha : a.isLeapSecond = false) (hb : b.isLeapSecond = false) :
    a.before b = true ↔ a.nanos < b.nanos := by
  have := nano_lt ha
  have := nano_lt hb
  rw [before_iff]
  simp only [nanos, nanosPerSecond] at *
  omega

theorem nanos_between (ha : a.isLeapSecond = false) (hb : b.isLeapSecond = false) :
    (a.between b).nanos = (b.nanos - a.nanos).toNat := by
  rw [between, nanosBetween_eq ha hb]

/-- Of two spans to the same point, the one from the earlier point is no shorter. -/
theorem between_anti_left (ha : a.isLeapSecond = false) (hb : b.isLeapSecond = false)
    (hc : c.isLeapSecond = false) (earlier : a.before b = true) : b.between c ≤ a.between c := by
  rw [before_iff_nanos ha hb] at earlier
  rw [Duration.le_def, nanos_between ha hc, nanos_between hb hc]
  omega

/-- Of two spans from the same point, the one to the earlier point is no longer. -/
theorem between_mono_right (ha : a.isLeapSecond = false) (hb : b.isLeapSecond = false)
    (hc : c.isLeapSecond = false) (earlier : a.before b = true) : c.between a ≤ c.between b := by
  rw [before_iff_nanos ha hb] at earlier
  rw [Duration.le_def, nanos_between hc ha, nanos_between hc hb]
  omega

/-- The time to a point that is no earlier is not cut off at zero. -/
theorem nanos_between_of_not_before (ha : a.isLeapSecond = false) (hb : b.isLeapSecond = false)
    (later : ¬ b.before a = true) : ((a.between b).nanos : Int) = nanosBetween a b := by
  rw [before_iff_nanos hb ha] at later
  rw [nanos_between ha hb, nanosBetween_eq ha hb]
  omega

theorem nanos_add? (ht : t.isLeapSecond = false) (h : t.add? d = some u) :
    u.nanos = t.nanos + d.nanos ∧ u.isLeapSecond = false := by
  unfold add? at h
  simp only [ht, Bool.false_eq_true, false_and, ↓reduceIte, nanosPerSecond] at h
  split at h
  · cases h
  · split at h
    · cases h
      have part := Nat.mod_lt (t.nano + d.nanos % nanosPerSecond) (by decide : 0 < nanosPerSecond)
      constructor
      · simp only [nanos, nanosPerSecond]
        omega
      · rwa [isLeapSecond, decide_eq_false_iff_not, Nat.not_le]
    · cases h

theorem between_add? (ht : t.isLeapSecond = false) (h : t.add? d = some u) : t.between u = d := by
  obtain ⟨moved, regular⟩ := nanos_add? ht h
  have difference : nanosBetween t u = d.nanos := by
    rw [nanosBetween_eq ht regular]
    omega
  rw [between, difference]
  rfl

end Timestamp
end TestWatch
