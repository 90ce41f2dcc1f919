import TestWatch.Proofs.Run.Boundary

/-!
# What a run is while it is under way, and once it has ended

A run is under way as long as one of its packages is running, or it has none yet. When it ends, by
the outcome of its last package or because the stream is over, its status says what became of its
packages and tests, and it says so for good.
-/

namespace TestWatch

theorem Counts.failed_sum_pos_iff {cs : List Counts} :
    0 < (sum cs).failed ↔ ∃ c ∈ cs, 0 < c.failed := by
  induction cs with
  | nil => simp [zero]
  | cons c cs ih =>
    have added : 0 < (sum (c :: cs)).failed ↔ 0 < c.failed ∨ 0 < (sum cs).failed := by
      simp only [sum_cons, plus]
      omega
    rw [added, ih]
    simp

namespace Run

theorem Sound.exists_mem_testsIn {r : Run} (h : r.Sound) {k : TestKey} {t : Test}
    (ht : r.tests.get? k = some t) : ∃ p ∈ r.packages.values, t ∈ r.testsIn p := by
  obtain ⟨p, hp, listed⟩ := (h.stored k).1 (by simp [ht])
  refine ⟨p, Table.mem_values_of_get? hp, List.mem_filterMap.2 ⟨k.test, listed, ?_⟩⟩
  rw [test?, h.packageName _ p hp]
  exact ht

theorem Sound.failed_pos_iff {r : Run} (h : r.Sound) :
    0 < r.counts.failed ↔ ∃ k t, r.tests.get? k = some t ∧ t.status = .failed := by
  have failed_in {p : Package} (hp : p ∈ r.packages.values) :
      0 < p.counts.failed ↔ ∃ t ∈ r.testsIn p, t.status = .failed := by
    obtain ⟨n, hn⟩ := (Table.mem_values _ p).1 hp
    rw [h.packageCounts n p hn, Counts.ofTests, List.countP_pos_iff]
    simp
  rw [h.runCounts, Counts.failed_sum_pos_iff]
  constructor
  · rintro ⟨c, hc, failed⟩
    obtain ⟨p, hp, rfl⟩ := List.mem_map.1 hc
    obtain ⟨t, ht, status⟩ := (failed_in hp).1 failed
    obtain ⟨x, _, stored⟩ := List.mem_filterMap.1 ht
    exact ⟨_, t, stored, status⟩
  · rintro ⟨k, t, stored, status⟩
    obtain ⟨p, hp, ht⟩ := h.exists_mem_testsIn stored
    exact ⟨p.counts, List.mem_map_of_mem hp, (failed_in hp).2 ⟨t, ht, status⟩⟩

def Failing (r : Run) : Prop :=
  (∃ k t, r.tests.get? k = some t ∧ t.status = .failed) ∨
    ∃ p ∈ r.packages.values, p.status = .failed

theorem Sound.hasFailures_iff {r : Run} (h : r.Sound) : r.hasFailures = true ↔ r.Failing := by
  rw [hasFailures, Failing, Bool.or_eq_true, decide_eq_true_eq, h.failed_pos_iff]
  simp

/-- A package is running, or there is none yet. -/
def Alive (r : Run) : Prop := r.packages.values = [] ∨ 0 < r.running

theorem packages_isEmpty_iff (r : Run) : r.packages.isEmpty = true ↔ r.packages.values = [] := by
  simp [Table.isEmpty, Table.values]

theorem Sound.alive_iff {r : Run} (h : r.Sound) :
    r.Alive ↔ r.packages.values = [] ∨ ∃ p ∈ r.packages.values, p.status = .running := by
  rw [Alive, h.running, List.countP_pos_iff]
  simp

section Alive

variable {r : Run} {mode : Mode} {now : Timestamp} {e : TestEvent}

theorem Alive.enlist (h : r.Alive) (now : Timestamp) (e : TestEvent) :
    0 < (r.enlist now e).running := by
  have listed : 0 < ((r.observe e.time).ensurePackage e.package e.time now).running := by
    unfold ensurePackage
    split
    · rename_i known
      obtain ⟨p, hp⟩ := Option.isSome_iff_exists.1 known
      rcases h with none_yet | running
      · have : p ∈ r.packages.values := Table.mem_values_of_get? hp
        simp [none_yet] at this
      · exact running
    · exact Nat.succ_pos _
  have tested (k : TestKey) (r : Run) : (r.ensureTest k e.time now).running = r.running := by
    unfold ensureTest
    split <;> rfl
  unfold Run.enlist
  split
  · exact listed
  · exact (tested _ _).symm ▸ listed

theorem running_finishTest (k : TestKey) (s : Status) (d : Duration) :
    (r.finishTest k s d).running = r.running := by
  unfold finishTest
  split
  · split <;> rfl
  · rfl

theorem running_applyToTest : (r.applyToTest e).running = r.running := by
  unfold applyToTest
  split
  all_goals first | rfl | exact running_finishTest _ _ _

theorem alive_pushOutcome (running : 0 < r.running) (s : Status)
    (open_ : (r.pushOutcome mode now e s).finish = none) :
    (r.pushOutcome mode now e s).Alive := by
  unfold pushOutcome at open_ ⊢
  split at open_
  · rename_i r' _
    simp only [settle] at open_ ⊢
    split at open_
    · rename_i still
      rw [if_pos still]
      rcases still with more | empty
      · exact .inr more
      · exact .inl ((packages_isEmpty_iff r').1 empty)
    · cases open_
  · exact .inr running

theorem alive_applyToPackage (running : 0 < r.running)
    (open_ : (r.applyToPackage mode now e).finish = none) :
    (r.applyToPackage mode now e).Alive := by
  unfold applyToPackage at open_ ⊢
  cases ha : e.action <;> simp only [ha] at open_ ⊢
  case pass => exact alive_pushOutcome running .passed open_
  case fail => exact alive_pushOutcome running .failed open_
  case skip => exact alive_pushOutcome running .skipped open_
  all_goals exact .inr running

/-- A run that an event leaves open has a package running, or none at all. -/
theorem Alive.push (h : r.Alive) (open_ : (r.push mode now e).finish = none) :
    (r.push mode now e).Alive := by
  unfold Run.push at open_ ⊢
  by_cases hp : e.package = ""
  · rw [if_pos hp]
    unfold printLoose
    split
    · exact h
    · exact h
  rw [if_neg hp] at open_ ⊢
  by_cases ht : e.test = ""
  · rw [if_pos ht] at open_ ⊢
    exact alive_applyToPackage (h.enlist now e) open_
  · rw [if_neg ht]
    exact .inr (running_applyToTest.symm ▸ h.enlist now e)

end Alive

/-- What a run is while it is under way. -/
structure UnderWay (r : Run) : Prop where
  finish : r.finish = none
  status : r.status = .running
  alive : r.packages.values = [] ∨ ∃ p ∈ r.packages.values, p.status = .running

/-- What a run is once it has ended. The status is one of four, and each says what became of the
packages and tests. -/
structure Ended (r : Run) : Prop where
  finish : r.finish.isSome
  running : r.running = 0
  idle : ∀ p ∈ r.packages.values, p.status ≠ .running
  interrupted : r.status = .interrupted ↔ ∃ p ∈ r.packages.values, p.status = .interrupted
  unknown : r.status = .unknown ↔ r.packages.values = []
  failed : r.status = .failed ↔
    (∀ p ∈ r.packages.values, p.status ≠ .interrupted) ∧ r.Failing
  passed : r.status ≠ .interrupted → r.status ≠ .unknown → r.status ≠ .failed →
    r.status = .passed ∧ ∀ p ∈ r.packages.values, p.status = .passed ∨ p.status = .skipped

theorem Sound.not_failing_of_empty {r : Run} (h : r.Sound) (empty : r.packages.values = []) :
    ¬ r.Failing := by
  rintro (⟨k, t, stored, _⟩ | ⟨p, hp, _⟩)
  · obtain ⟨p, hp, _⟩ := h.exists_mem_testsIn stored
    simp [empty] at hp
  · simp [empty] at hp

/-- A run whose packages have all reported an outcome has ended as its failures say. -/
theorem Quiet.ended {r : Run} (hq : r.Quiet) (hs : r.Sound) (finish : r.finish.isSome)
    (some_package : r.packages.values ≠ [])
    (status : r.status = if r.hasFailures then .failed else .passed) : r.Ended := by
  have idle : ∀ p ∈ r.packages.values, p.status ≠ .running ∧ p.status ≠ .interrupted := by
    intro p hp
    rcases hq p hp with h | h | h
    all_goals simp [h]
  have failing := hs.hasFailures_iff
  have running : r.running = 0 := by
    rw [hs.running, List.countP_eq_zero]
    intro p hp
    simpa using (idle p hp).1
  cases hf : r.hasFailures with
  | true =>
    have status : r.status = .failed := by rw [status, hf, if_pos rfl]
    have failed : r.Failing := failing.1 hf
    refine ⟨finish, running, fun p hp => (idle p hp).1, ?_, ?_, ?_, ?_⟩
    · simpa [status] using fun p hp => (idle p hp).2
    · simp [status, some_package]
    · simpa [status, failed] using fun p hp => (idle p hp).2
    · exact fun _ _ h => absurd status h
  | false =>
    have status : r.status = .passed := by rw [status, hf, if_neg (by simp)]
    have not_failing : ¬ r.Failing := by simp [← failing, hf]
    refine ⟨finish, running, fun p hp => (idle p hp).1, ?_, ?_, ?_, ?_⟩
    · simpa [status] using fun p hp => (idle p hp).2
    · simp [status, some_package]
    · simp [status, not_failing]
    · intro _ _ _
      refine ⟨status, fun p hp => ?_⟩
      rcases hq p hp with h | h | h
      · exact .inl h
      · exact absurd (.inr ⟨p, hp, h⟩) not_failing
      · exact .inr h

theorem UnderWay.push {r : Run} (h : r.UnderWay) (hs : r.Sound) (hw : r.Whole) (mode : Mode)
    (now : Timestamp) (e : TestEvent) :
    (r.push mode now e).UnderWay ∨ (r.push mode now e).Ended := by
  have sound := hs.push mode now e
  rcases push_cases mode now e r with head | ⟨r', _, hr, some_package, concluded⟩
  · have open_ : (r.push mode now e).finish = none := (congrArg (·.2.2.2.2) head).trans h.finish
    have alive := (hs.alive_iff.2 h.alive).push open_
    exact .inl ⟨open_, (congrArg (·.2.1) head).trans h.status, sound.alive_iff.1 alive⟩
  · right
    have finish : (r.push mode now e).finish.isSome := by
      rw [concluded]
      rfl
    refine (quiet_push sound (hw.push mode now e) h.finish finish).ended sound finish ?_ ?_
    · rw [concluded, ne_eq, ← packages_isEmpty_iff]
      simpa [conclude] using some_package
    · rw [concluded]
      rfl

/-- A run that is closed while it is under way ends interrupted, or unknown if it has no
package. -/
theorem UnderWay.close {r : Run} (h : r.UnderWay) (hs : r.Sound) (mode : Mode) (now : Timestamp) :
    (r.close mode now).Ended ∧
      ((r.close mode now).status = .interrupted ∨ (r.close mode now).status = .unknown) := by
  have sound := hs.close mode now
  have values : (r.close mode now).packages.values =
      r.packages.values.map (r.cutOff mode (r.endTime mode now)) := Table.values_mapValues _ _
  have cut := r.status_cutOff mode (r.endTime mode now)
  have idle : ∀ p ∈ (r.close mode now).packages.values, p.status ≠ .running := by
    rw [values, List.forall_mem_map]
    intro p _
    rw [cut]
    split
    · simp
    · assumption
  rcases h.alive with empty | ⟨p, hp, running⟩
  · have no_package : (r.close mode now).packages.values = [] := by simp [values, empty]
    have not_failing : r.hasFailures = false := by
      rw [← Bool.not_eq_true, hs.hasFailures_iff]
      exact hs.not_failing_of_empty empty
    have status : (r.close mode now).status = .unknown := by
      simp [Run.close, closingStatus, empty, not_failing, (packages_isEmpty_iff r).2 empty]
    refine ⟨⟨rfl, rfl, idle, ?_, ?_, ?_, ?_⟩, .inr status⟩
    · simp [status, no_package]
    · simp [status, no_package]
    · simp [status, sound.not_failing_of_empty no_package]
    · exact fun _ h => absurd status h
  · have status : (r.close mode now).status = .interrupted := by
      have : (r.packages.values.any fun p => p.status == .running) = true :=
        List.any_eq_true.2 ⟨p, hp, by simp [running]⟩
      simp [Run.close, closingStatus, this]
    have interrupted : ∃ q ∈ (r.close mode now).packages.values, q.status = .interrupted := by
      rw [values]
      exact ⟨_, List.mem_map_of_mem hp, by rw [cut, if_pos running]⟩
    have some_package : (r.close mode now).packages.values ≠ [] := by
      obtain ⟨q, hq, _⟩ := interrupted
      exact List.ne_nil_of_mem hq
    refine ⟨⟨rfl, rfl, idle, ?_, ?_, ?_, ?_⟩, .inl status⟩
    · simp [status, interrupted]
    · simp [status, some_package]
    · obtain ⟨q, hq, cut_off⟩ := interrupted
      rw [status]
      simp only [reduceCtorEq, false_iff]
      exact fun h => h.1 q hq cut_off
    · exact fun h => absurd status h

section Ended

variable {r : Run}

theorem Ended.failing (h : r.Ended) :
    (r.status = .failed → r.Failing) ∧ (r.status = .passed → ¬ r.Failing) := by
  constructor
  · exact fun status => (h.failed.1 status).2
  · intro status failing
    have whole : ∀ p ∈ r.packages.values, p.status ≠ .interrupted := by
      intro p hp cut
      have := h.interrupted.2 ⟨p, hp, cut⟩
      simp [status] at this
    have := h.failed.2 ⟨whole, failing⟩
    simp [status] at this

theorem Ended.status_cases (h : r.Ended) : r.status = .passed ∨ r.status = .failed ∨
    r.status = .interrupted ∨ r.status = .unknown := by
  by_cases interrupted : r.status = .interrupted
  · exact .inr (.inr (.inl interrupted))
  by_cases unknown : r.status = .unknown
  · exact .inr (.inr (.inr unknown))
  by_cases failed : r.status = .failed
  · exact .inr (.inl failed)
  exact .inl (h.passed interrupted unknown failed).1

/-- What neither was interrupted nor has failures has passed, or has seen no package. -/
theorem Ended.passed_or_unknown_iff (h : r.Ended) (hs : r.Sound) :
    r.status = .passed ∨ r.status = .unknown ↔ r.status ≠ .interrupted ∧ ¬ r.Failing := by
  constructor
  · rintro (passed | unknown)
    · exact ⟨by simp [passed], h.failing.2 passed⟩
    · exact ⟨by simp [unknown], hs.not_failing_of_empty (h.unknown.1 unknown)⟩
  · rintro ⟨interrupted, not_failing⟩
    rcases h.status_cases with passed | failed | cut | unknown
    · exact .inl passed
    · exact absurd (h.failing.1 failed) not_failing
    · exact absurd cut interrupted
    · exact .inr unknown

end Ended

end Run

namespace History

/-- A run that has not ended is under way, and no package of it has been cut off. -/
theorem Reachable.lifecycle {mode : Mode} {h : History} (hr : h.Reachable mode) :
    ∀ r ∈ h.runs, (r.finish = none → r.UnderWay ∧ r.Whole) ∧ (r.finish.isSome → r.Ended) := by
  have all : ∀ r ∈ h.runs, r.Sound ∧ (r.finish = none → r.UnderWay ∧ r.Whole) ∧
      (r.finish.isSome → r.Ended) := by
    refine hr.forall_runs ?_ ?_ ?_
    · intro id time now
      refine ⟨Run.sound_first _ _ _, fun _ => ⟨⟨rfl, rfl, .inl rfl⟩, Run.each_first _ _ _⟩, ?_⟩
      exact fun h => by cases h
    · rintro now e r open_ _ ⟨hs, under_way, _⟩
      obtain ⟨hu, hw⟩ := under_way open_
      refine ⟨hs.push mode now e, ?_⟩
      rcases hu.push hs hw mode now e with still | ended
      · exact ⟨fun _ => ⟨still, hw.push mode now e⟩, fun h => by simp [still.finish] at h⟩
      · refine ⟨fun h => ?_, fun _ => ended⟩
        have := ended.finish
        simp [h] at this
    · rintro now r open_ ⟨hs, under_way, _⟩
      obtain ⟨ended, _⟩ := (under_way open_).1.close hs mode now
      refine ⟨hs.close mode now, fun h => ?_, fun _ => ended⟩
      cases h
  exact fun r hm => (all r hm).2

/-- Runs are numbered from one on. At most the last run is under way, with a package running or
none yet; every other run has ended, with the status that its packages and tests account for.
Closing ends the run under way as interrupted or unknown and leaves the others as they are, and
once more it changes nothing. -/
theorem runs_lifecycle {mode : Mode} {h : History} (hr : h.Reachable mode) :
    h.runs.map Run.id = List.range' 1 h.runs.length ∧
    (∀ i, h.current = some i → i + 1 = h.runs.length) ∧
    (∀ i r, h.runs[i]? = some r → if h.current = some i then r.UnderWay else r.Ended) ∧
    (∀ now r, h.underWay? = some r → ∃ others r', h.runs = others ++ [r] ∧
      h.finish mode now = ⟨others ++ [r'], none⟩ ∧ r'.id = r.id ∧ r'.Ended ∧
      (r'.status = .interrupted ∨ r'.status = .unknown)) ∧
    ∀ now later, (h.finish mode now).finish mode later = h.finish mode now := by
  have lifecycle := hr.lifecycle
  have sound := hr.sound
  refine ⟨hr.ids, ?_⟩
  cases hr.ordered with
  | @idle ended hs =>
    refine ⟨by simp, ?_, by simp [underWay?], fun _ _ => rfl⟩
    intro i r hi
    have hm : r ∈ ended := List.mem_of_getElem? hi
    rw [if_neg (by simp)]
    exact (lifecycle r hm).2 (hs r hm)
  | @busy ended r hs open_ =>
    have hu := ((lifecycle r (by simp)).1 open_).1
    refine ⟨by simp, ?_, ?_, fun now later => by rw [finish_busy, finish_idle]⟩
    · intro i r' hi
      by_cases last : i = ended.length
      · subst last
        have : r = r' := by simpa using hi
        simpa [this] using this ▸ hu
      · have hm : r' ∈ ended := by
          have bound := (List.getElem?_eq_some_iff.1 hi).1
          rw [List.length_append, List.length_singleton] at bound
          rw [List.getElem?_append_left (by omega)] at hi
          exact List.mem_of_getElem? hi
        rw [if_neg (by simpa using fun h => last h.symm)]
        exact (lifecycle r' (by simp [hm])).2 (hs r' hm)
    · intro now r' under_way
      obtain rfl : r = r' := by simpa [underWay?] using under_way
      obtain ⟨ended', status⟩ := hu.close (sound r (by simp)) mode now
      exact ⟨ended, r.close mode now, rfl, finish_busy, rfl, ended', status⟩

/-- One run that ended by itself with a failed test, and one that is closed while a package runs. -/
theorem runs_lifecycle_two_runs :
    let h := (empty.pushAll .live [(default, ⟨default, .fail, "a", "T", "", none⟩),
      (default, ⟨default, .pass, "a", "", "", none⟩),
      (default, ⟨default, .start, "b", "", "", none⟩)]).finish .live default
    h.runs.map Run.status = [.failed, .interrupted] ∧
      ∀ i r, h.runs[i]? = some r → if h.current = some i then r.UnderWay else r.Ended :=
  ⟨by decide, (runs_lifecycle ((Reachable.start.pushAll _).finish default)).2.2.1⟩

end History
end TestWatch
