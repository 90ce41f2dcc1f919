import TestWatch.Proofs.Report.Agreement

/-!
# What a report singles out

The slow tests are those of all packages, in a stable order: of tests that took equally long, the
one that is shown first comes first. In the same way, of packages that are equally fast, slow or
large, the first one stands out.
-/

namespace TestWatch

section Scan

variable {α : Type} {isBetter : α → α → Prop} {best x y : α} {ys : List α}

/-- The first element that none is better than: it is better than all before it, and none after it
is better. -/
def FirstBest (isBetter : α → α → Prop) (xs : List α) (x : α) : Prop :=
  ∃ before after, xs = before ++ x :: after ∧
    (∀ y ∈ before, isBetter x y) ∧ ∀ y ∈ after, ¬ isBetter y x

theorem FirstBest.of_better (trans : ∀ a b c, isBetter a b → isBetter b c → isBetter a c)
    (h : FirstBest isBetter (y :: ys) best) (improved : isBetter y x) :
    FirstBest isBetter (x :: y :: ys) best := by
  obtain ⟨before, after, whole, beaten, rest⟩ := h
  refine ⟨x :: before, after, congrArg (x :: ·) whole, List.forall_mem_cons.2 ⟨?_, beaten⟩, rest⟩
  cases before with
  | nil =>
    obtain ⟨rfl, _⟩ := List.cons.inj whole
    exact improved
  | cons b bs =>
    obtain ⟨rfl, _⟩ := List.cons.inj whole
    exact trans _ _ _ (beaten y List.mem_cons_self) improved

theorem FirstBest.of_not_better (split : ∀ a b c, isBetter a c → isBetter a b ∨ isBetter b c)
    (h : FirstBest isBetter (x :: ys) best) (stays : ¬ isBetter y x) :
    FirstBest isBetter (x :: y :: ys) best := by
  obtain ⟨before, after, whole, beaten, rest⟩ := h
  cases before with
  | nil =>
    obtain ⟨rfl, rfl⟩ := List.cons.inj whole
    exact ⟨[], y :: ys, rfl, List.forall_mem_nil _, List.forall_mem_cons.2 ⟨stays, rest⟩⟩
  | cons b bs =>
    obtain ⟨rfl, rfl⟩ := List.cons.inj whole
    rw [List.forall_mem_cons] at beaten
    have beats_y := (split best y x beaten.1).resolve_right stays
    refine ⟨x :: y :: bs, after, rfl, ?_, rest⟩
    exact List.forall_mem_cons.2 ⟨beaten.1, List.forall_mem_cons.2 ⟨beats_y, beaten.2⟩⟩

/-- A scan that moves on only to what is better ends at the first of the best. -/
theorem firstBest_foldl [∀ a b, Decidable (isBetter a b)]
    (trans : ∀ a b c, isBetter a b → isBetter b c → isBetter a c)
    (split : ∀ a b c, isBetter a c → isBetter a b ∨ isBetter b c) (x : α) (xs : List α) :
    FirstBest isBetter (x :: xs) (xs.foldl (better fun best y => isBetter y best) x) := by
  induction xs generalizing x with
  | nil => exact ⟨[], [], rfl, List.forall_mem_nil _, List.forall_mem_nil _⟩
  | cons y ys ih =>
    rw [List.foldl_cons, better]
    split_ifs with moves
    · exact (ih y).of_better trans (of_decide_eq_true moves)
    · exact (ih x).of_not_better split fun improved => moves (decide_eq_true improved)

end Scan

/-- All of `ts`, sorted so that none is followed by a slower one; equally slow ones stay in their
order. -/
structure SlowestFirst (ts sorted : List Test) : Prop where
  perm : sorted.Perm ts
  order : sorted.Pairwise fun a b => b.elapsed ≤ a.elapsed
  stable : ∀ d, sorted.filter (fun t => t.elapsed = d) = ts.filter fun t => t.elapsed = d

theorem slowestFirst_mergeSort (ts : List Test) :
    SlowestFirst ts (ts.mergeSort fun a b => b.elapsed ≤ a.elapsed) := by
  have trans (a b c : Test) (h : decide (b.elapsed ≤ a.elapsed) = true)
      (h' : decide (c.elapsed ≤ b.elapsed) = true) : decide (c.elapsed ≤ a.elapsed) = true := by
    simp only [decide_eq_true_eq, Duration.le_def] at *
    omega
  have total (a b : Test) :
      (decide (b.elapsed ≤ a.elapsed) || decide (a.elapsed ≤ b.elapsed)) = true := by
    simp only [Bool.or_eq_true, decide_eq_true_eq, Duration.le_def]
    omega
  have perm := List.mergeSort_perm ts fun a b => b.elapsed ≤ a.elapsed
  refine ⟨perm, (List.pairwise_mergeSort trans total ts).imp of_decide_eq_true, ?_⟩
  intro d
  -- Equally slow tests are in order as they stand, so sorting keeps them as a sublist.
  have tied : (ts.filter fun t => t.elapsed = d).Pairwise
      fun a b => decide (b.elapsed ≤ a.elapsed) = true := by
    apply List.pairwise_of_forall_mem_list
    intro a ha b hb
    have same_a := of_decide_eq_true (List.mem_filter.1 ha).2
    have same_b := of_decide_eq_true (List.mem_filter.1 hb).2
    rw [same_a, same_b, decide_eq_true_eq, Duration.le_def]
  have kept := (List.sublist_mergeSort trans total tied List.filter_sublist).filter
    fun t => t.elapsed = d
  simp only [List.filter_filter, Bool.and_self] at kept
  exact (kept.eq_of_length (perm.filter _).length_eq.symm).symm

namespace Run

/-- The slow tests are the shown tests that took at least the threshold, the slowest first. The
fastest, the slowest and the largest package are each the first such package, and there is none of
them only if there are no packages. -/
theorem statistics_as_declared (r : Run) (threshold : Duration) :
    SlowestFirst (r.shown.filter fun t => threshold ≤ t.elapsed) (r.slowTests threshold) ∧
      (r.packages.values = [] ∧ r.fastest? = none ∧ r.slowest? = none ∧ r.mostTested? = none ∨
        ∃ fastest slowest most,
          r.fastest? = some fastest ∧ r.slowest? = some slowest ∧ r.mostTested? = some most ∧
          FirstBest (fun p q => p.elapsed < q.elapsed) r.packages.values fastest ∧
          FirstBest (fun p q => q.elapsed < p.elapsed) r.packages.values slowest ∧
          FirstBest (fun p q => q.order.length < p.order.length) r.packages.values most) := by
  refine ⟨slowestFirst_mergeSort _, ?_⟩
  unfold fastest? slowest? mostTested?
  cases r.packages.values with
  | nil => exact .inl ⟨rfl, rfl, rfl, rfl⟩
  | cons p ps =>
    apply Or.inr
    refine ⟨_, _, _, rfl, rfl, rfl, ?_, ?_, ?_⟩
    · apply @firstBest_foldl _ fun (a b : Package) => a.elapsed < b.elapsed
      · exact fun _ _ _ => Nat.lt_trans
      · intro a b c
        simp only [Duration.lt_def]
        omega
    · apply @firstBest_foldl _ fun (a b : Package) => b.elapsed < a.elapsed
      · exact fun _ _ _ => flip Nat.lt_trans
      · intro a b c
        simp only [Duration.lt_def]
        omega
    · apply @firstBest_foldl _ fun (a b : Package) => b.order.length < a.order.length
      · exact fun _ _ _ => flip Nat.lt_trans
      · intro a b c
        omega

end Run

end TestWatch
