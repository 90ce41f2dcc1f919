import TestWatch.Proofs.Frame.Alignment
import TestWatch.Proofs.Frame.Colour
import TestWatch.Proofs.Number.Digits
import Mathlib.Data.Nat.Log

/-!
# The columns at the right edge

Each package of a frame, and below them the run, shows three counts and an elapsed time. Each of
these ends at one column in all lines, and none is cut. A column is as wide as its widest entry,
which for a count is the number of its digits.
-/

namespace TestWatch

open Text (Printed visible plainWidth plainWidth_blanks charWidth)

theorem length_decimal (n : Nat) : (decimal n).length = Nat.log 10 n + 1 := by
  have at_most (k : Nat) : (decimal n).length ≤ k + 1 ↔ Nat.log 10 n ≤ k := by
    rw [decimal, Nat.length_toDigits_le_iff (by decide) (Nat.succ_pos k)]
    rcases Nat.eq_zero_or_pos n with rfl | positive
    · exact iff_of_true (Nat.pow_pos (Nat.succ_pos 9)) ((Nat.log_zero_right 10).le.trans k.zero_le)
    · rw [← Nat.log_lt_iff_lt_pow (by decide) (by omega), Nat.lt_succ_iff]
  apply Nat.le_antisymm
  · exact (at_most _).2 (Nat.le_refl _)
  · have least := (at_most ((decimal n).length - 1)).1 (by omega)
    have nonempty : 0 < (decimal n).length := List.length_pos_iff.2 Nat.toDigits_ne_nil
    omega

namespace Columns

/-- There is room for each entry. -/
structure Fits (w : Columns) (c : Counts) (d : Duration) : Prop where
  passed : (decimal c.passed).length ≤ w.passed
  failed : (decimal c.failed).length ≤ w.failed
  skipped : (decimal c.skipped).length ≤ w.skipped
  elapsed : d.short.length ≤ w.elapsed

def entries (m : Moment) (r : Run) : List (Counts × Duration) :=
  (r.counts, m.ofRun r) :: r.packages.values.map fun p => (p.counts, m.ofPackage p)

/-- Each column is as wide as its widest entry; the width of a number is how many digits it
has. -/
structure Widest (w : Columns) (es : List (Counts × Duration)) : Prop where
  passed : (es.map fun e => Nat.log 10 e.1.passed + 1).max? = some w.passed
  failed : (es.map fun e => Nat.log 10 e.1.failed + 1).max? = some w.failed
  skipped : (es.map fun e => Nat.log 10 e.1.skipped + 1).max? = some w.skipped
  elapsed : (es.map fun e => e.2.short.length).max? = some w.elapsed

theorem Widest.fits {w : Columns} {es : List (Counts × Duration)} (h : w.Widest es) {c : Counts}
    {d : Duration} (mem : (c, d) ∈ es) : w.Fits c d := by
  have bound {size : Counts × Duration → Nat} {width : Nat}
      (widest : (es.map size).max? = some width) : size (c, d) ≤ width :=
    (List.max?_eq_some_iff.1 widest).2 _ (List.mem_map_of_mem mem)
  constructor
  · rw [length_decimal]
    exact bound h.passed
  · rw [length_decimal]
    exact bound h.failed
  · rw [length_decimal]
    exact bound h.skipped
  · exact bound h.elapsed

end Columns

end TestWatch
