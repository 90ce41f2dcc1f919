import TestWatch.Run.Progress

/-!
# Counting tests

The counts that a package and a run keep, as numbers that can be taken from the tests: how many
tests have a status, and the sum over packages. A change of one test, or of one package, changes
them at one place.
-/

namespace TestWatch
namespace Counts

def sum (cs : List Counts) : Counts := cs.foldr plus zero

/-- Tests counted by their status; those that are paused count as running. -/
def ofTests (ts : List Test) : Counts where
  passed := ts.countP fun t => t.status == .passed
  failed := ts.countP fun t => t.status == .failed
  skipped := ts.countP fun t => t.status == .skipped
  running := ts.countP fun t => t.status == .running || t.status == .paused

@[simp] theorem sum_nil : sum [] = zero := rfl

@[simp] theorem sum_cons (c : Counts) (cs : List Counts) : sum (c :: cs) = c.plus (sum cs) := rfl

theorem sum_middle (xs ys : List Counts) (c : Counts) :
    sum (xs ++ c :: ys) = c.plus (sum (xs ++ ys)) := by
  induction xs with
  | nil => rfl
  | cons x xs ih => rw [List.cons_append, sum_cons, ih, plus_left_comm, List.cons_append, sum_cons]

theorem running_le_sum {c : Counts} {cs : List Counts} (h : c ∈ cs) :
    c.running ≤ (sum cs).running := by
  obtain ⟨xs, ys, rfl⟩ := List.append_of_mem h
  rw [sum_middle]
  simp [plus]

@[simp] theorem ofTests_nil : ofTests [] = zero := rfl

theorem ofTests_append (xs ys : List Test) :
    ofTests (xs ++ ys) = (ofTests xs).plus (ofTests ys) := by
  ext <;> simp [ofTests, plus]

theorem ofTests_middle (xs ys : List Test) (t : Test) :
    ofTests (xs ++ t :: ys) = (ofTests [t]).plus (ofTests (xs ++ ys)) := by
  ext <;> simp [ofTests, plus, List.countP_cons] <;> omega

theorem ofTests_enter (ts : List Test) {t : Test} (h : t.status = .running) :
    ofTests (ts ++ [t]) = (ofTests ts).enter := by
  ext <;> simp [ofTests, enter, h]

/-- A test that is replaced by one that counts the same changes nothing. -/
theorem ofTests_replace (xs ys : List Test) {t u : Test} (h : ofTests [t] = ofTests [u]) :
    ofTests (xs ++ t :: ys) = ofTests (xs ++ u :: ys) := by
  rw [ofTests_middle, ofTests_middle xs ys u, h]

/-- Tests that are neither unknown nor interrupted count one each. -/
theorem total_ofTests {ts : List Test}
    (h : ∀ t ∈ ts, t.status ≠ .unknown ∧ t.status ≠ .interrupted) :
    (ofTests ts).total = ts.length := by
  induction ts with
  | nil => rfl
  | cons t ts ih =>
    have ht := h t (by simp)
    have ih := ih fun u hu => h u (List.mem_cons_of_mem _ hu)
    have hm := ofTests_middle [] ts t
    simp only [List.nil_append] at hm
    rw [hm]
    simp only [total, plus, List.length_cons] at ih ⊢
    cases hs : t.status <;> simp_all [ofTests] <;> omega

/-- The test is under way, as far as its status tells. -/
theorem running_ofTests_singleton {t : Test} (ht : t.status.isTerminal = false)
    (hu : t.status ≠ .unknown) : (ofTests [t]).running = 1 := by
  cases hs : t.status <;> simp_all [ofTests, Status.isTerminal]

/-- An outcome moves a test that was under way from one group to another. -/
theorem ofTests_complete {s : Status} (hs : s = .passed ∨ s = .failed ∨ s = .skipped)
    (d : Duration) {t : Test} (ht : (ofTests [t]).running = 1) (xs ys : List Test) :
    ofTests (xs ++ t.complete s d :: ys) = (ofTests (xs ++ t :: ys)).finish s := by
  have ho : ofTests [t.complete s d] = (ofTests [t]).finish s := by
    rcases hs with rfl | rfl | rfl <;> cases hst : t.status <;>
      simp_all [ofTests, Test.complete, finish]
  rw [ofTests_middle, ofTests_middle xs ys t, ho, finish_plus s _ (by omega)]

end Counts
end TestWatch
