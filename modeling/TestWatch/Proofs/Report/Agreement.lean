import TestWatch.Report.Stats
import TestWatch.Proofs.Run.Lifecycle
import TestWatch.Proofs.Run.Listing

/-!
# The report agrees with the record

The report walks packages and their orders, whereas the counts and the status of a run are kept as
events come in. The packages of a run show each of its tests once, so what the report lists is what
was counted, and what decides how the run ended.
-/

namespace TestWatch

namespace Run

/-- All tests in the order in which they are shown. -/
def shown (r : Run) : List Test := r.packages.values.flatMap r.testsIn

section Shown

variable {r : Run}

theorem Sound.map_key_shown (hs : r.Sound) :
    r.shown.map (fun t => TestKey.mk t.package t.name) =
      r.packages.values.flatMap fun p => p.order.map (TestKey.mk p.name) := by
  rw [shown, List.map_flatMap]
  exact List.flatMap_congr fun p hp => hs.map_key_testsIn hp

theorem Sound.nodup_keys_shown (hs : r.Sound) :
    (r.shown.map fun t => TestKey.mk t.package t.name).Nodup := by
  rw [hs.map_key_shown]
  exact hs.nodup_keys_of_sublist (.refl _)

theorem Sound.map_key_tests (hs : r.Sound) :
    r.tests.values.map (fun t => TestKey.mk t.package t.name) = r.tests.keys := by
  rw [Table.values, Table.keys, List.map_map]
  apply List.map_congr_left
  rintro ⟨k, t⟩ he
  obtain ⟨package, name⟩ := hs.testKey k t ((Table.get?_eq_some_iff _ k t).2 he)
  simp [package, name]

theorem Sound.perm_shown (hs : r.Sound) : r.shown.Perm r.tests.values := by
  have stored : r.tests.values.Nodup := by
    apply List.Nodup.of_map fun t => TestKey.mk t.package t.name
    rw [hs.map_key_tests]
    exact r.tests.nodup
  apply (List.perm_ext_iff_of_nodup (.of_map _ hs.nodup_keys_shown) stored).2
  intro t
  rw [shown, List.mem_flatMap]
  constructor
  · rintro ⟨p, _, ht⟩
    obtain ⟨x, _, hx⟩ := List.mem_filterMap.1 ht
    exact Table.mem_values_of_get? hx
  · intro ht
    obtain ⟨k, hk⟩ := (Table.mem_values _ t).1 ht
    exact hs.exists_mem_testsIn hk

theorem Sound.counts_eq (hs : r.Sound) : r.counts = .ofTests r.shown := by
  have upTo (ps : List Package) (hps : ∀ p ∈ ps, p ∈ r.packages.values) :
      Counts.sum (ps.map Package.counts) = .ofTests (ps.flatMap r.testsIn) := by
    induction ps with
    | nil => rfl
    | cons p ps ih =>
      obtain ⟨n, hn⟩ := (Table.mem_values _ p).1 (hps p List.mem_cons_self)
      rw [List.map_cons, Counts.sum_cons, hs.packageCounts n p hn, List.flatMap_cons,
        Counts.ofTests_append, ih fun q hq => hps q (List.mem_cons_of_mem _ hq)]
  rw [hs.runCounts, shown]
  exact upTo _ fun p hp => hp

theorem Sound.total_counts (hs : r.Sound) :
    r.counts.total = (r.packages.values.map fun p => p.order.length).foldr (· + ·) 0 := by
  have known : ∀ t ∈ r.shown, t.status ≠ .unknown ∧ t.status ≠ .interrupted := by
    intro t ht
    rw [hs.perm_shown.mem_iff] at ht
    obtain ⟨k, hk⟩ := (Table.mem_values _ t).1 ht
    exact hs.testStatus k t hk
  have orders : (r.packages.values.map fun p => (r.testsIn p).length) =
      r.packages.values.map fun p => p.order.length := by
    apply List.map_congr_left
    intro p hp
    obtain ⟨n, hn⟩ := (Table.mem_values _ p).1 hp
    exact hs.length_testsIn hn
  rw [hs.counts_eq, Counts.total_ofTests known, shown, List.length_flatMap, orders,
    List.sum_eq_foldr]

end Shown

/-- The groups hold each test of a status once, under its own package. Packages come in the order in
which the events first name them, and so do the tests of each. -/
structure Lists (r : Run) (events : List (Timestamp × TestEvent)) (s : Status)
    (gs : List Group) : Prop where
  all : (gs.flatMap Group.tests).Perm (r.tests.values.filter fun t => t.status == s)
  once : ((gs.flatMap Group.tests).map fun t => TestKey.mk t.package t.name).Nodup
  own : ∀ g ∈ gs, ∀ t ∈ g.tests, t.package = g.package.name
  packages : (gs.map Group.package).Sublist r.packages.values
  packageOrder : (gs.map fun g => g.package.name).Sublist
    (firstSeen (events.map fun e => e.2.package))
  testOrder : ∀ g ∈ gs, (g.tests.map Test.name).Sublist
    (firstSeen ((events.filter fun e => e.2.package == g.package.name).map fun e => e.2.test))

/-- Some packages, each with its tests of a status; the others have none. -/
inductive Grouping (r : Run) (s : Status) : List Group → Prop
  | keep (kept : Package → Bool) (dropped : ∀ p, kept p = false → r.withStatus s p = []) :
      Grouping r s ((r.packages.values.filter kept).map fun p => ⟨p, r.withStatus s p⟩)

theorem grouping_failures (r : Run) : r.Grouping .failed r.failures := by
  refine .keep _ fun p dropped => ?_
  simpa using (Bool.or_eq_false_iff.1 dropped).1

theorem grouping_skipped (r : Run) : r.Grouping .skipped r.skipped := by
  refine .keep _ fun p dropped => ?_
  simpa using dropped

namespace Grouping

variable {r : Run} {s : Status} {gs : List Group}

theorem of_mem (hg : r.Grouping s gs) {g : Group} (hm : g ∈ gs) :
    g.package ∈ r.packages.values ∧ g.tests = r.withStatus s g.package := by
  obtain ⟨kept, _⟩ := hg
  obtain ⟨p, hp, rfl⟩ := List.mem_map.1 hm
  exact ⟨List.mem_of_mem_filter hp, rfl⟩

theorem packages (hg : r.Grouping s gs) : (gs.map Group.package).Sublist r.packages.values := by
  obtain ⟨kept, _⟩ := hg
  rw [List.map_map]
  change ((r.packages.values.filter kept).map fun p => p).Sublist r.packages.values
  rw [List.map_id']
  exact List.filter_sublist

/-- Packages without tests of the status add nothing, so it does not matter which are kept. -/
theorem flatMap_tests (hg : r.Grouping s gs) :
    gs.flatMap Group.tests = r.shown.filter fun t => t.status == s := by
  obtain ⟨kept, dropped⟩ := hg
  rw [List.flatMap_map, shown, List.filter_flatMap]
  change (r.packages.values.filter kept).flatMap (r.withStatus s) =
    r.packages.values.flatMap (r.withStatus s)
  induction r.packages.values with
  | nil => rfl
  | cons p ps ih =>
    cases hp : kept p with
    | true => rw [List.filter_cons_of_pos hp, List.flatMap_cons, List.flatMap_cons, ih]
    | false =>
      have not_kept : ¬ kept p = true := by simp [hp]
      rw [List.filter_cons_of_neg not_kept, List.flatMap_cons, dropped p hp, ih, List.nil_append]

theorem length_tests (hg : r.Grouping s gs) :
    (gs.flatMap Group.tests).length = r.shown.countP fun t => t.status == s := by
  rw [hg.flatMap_tests, List.countP_eq_length_filter]

theorem lists (hg : r.Grouping s gs) (hs : r.Sound) {mode : Mode}
    {events : List (Timestamp × TestEvent)} (made : r.MadeBy mode events) :
    r.Lists events s gs := by
  obtain ⟨packageNames, testNames⟩ := made.names hs
  have selected : (gs.flatMap Group.tests).Sublist r.shown := by
    rw [hg.flatMap_tests]
    exact List.filter_sublist
  constructor
  case all =>
    rw [hg.flatMap_tests]
    exact hs.perm_shown.filter _
  case once => exact hs.nodup_keys_shown.sublist (selected.map _)
  case own =>
    intro g hm t ht
    obtain ⟨hp, tests⟩ := hg.of_mem hm
    rw [tests] at ht
    exact hs.package_eq hp (List.mem_of_mem_filter ht)
  case packages => exact hg.packages
  case packageOrder =>
    have names := hg.packages.map Package.name
    rwa [packageNames, List.map_map] at names
  case testOrder =>
    intro g hm
    obtain ⟨hp, tests⟩ := hg.of_mem hm
    rw [tests, ← testNames g.package hp]
    exact List.filter_sublist.map _

end Grouping

/-- A package is listed with the failures if it failed or one of its tests did. -/
theorem failures_ne_nil_iff (r : Run) : r.failures ≠ [] ↔
    ∃ p ∈ r.packages.values, (∃ t ∈ r.testsIn p, t.status = .failed) ∨ p.status = .failed := by
  have failed (p : Package) : (!(r.withStatus .failed p).isEmpty) = true ↔
      ∃ t ∈ r.testsIn p, t.status = .failed := by
    simp [withStatus]
  rw [failures, ne_eq, List.map_eq_nil_iff, List.filter_eq_nil_iff]
  simp only [Bool.or_eq_true, failed, beq_iff_eq]
  push Not
  rfl

theorem Sound.failures_ne_nil_iff_hasFailures {r : Run} (hs : r.Sound) :
    r.failures ≠ [] ↔ r.hasFailures = true := by
  rw [hs.hasFailures_iff, failures_ne_nil_iff, Failing]
  constructor
  · rintro ⟨p, hp, ⟨t, ht, status⟩ | status⟩
    · obtain ⟨x, _, stored⟩ := List.mem_filterMap.1 ht
      exact .inl ⟨_, t, stored, status⟩
    · exact .inr ⟨p, hp, status⟩
  · rintro (⟨k, t, stored, status⟩ | ⟨p, hp, status⟩)
    · obtain ⟨p, hp, ht⟩ := hs.exists_mem_testsIn stored
      exact ⟨p, hp, .inl ⟨t, ht, status⟩⟩
    · exact ⟨p, hp, .inr status⟩

end Run

namespace History

/-- The report of a run lists each test that failed, and each that was skipped, once and under its
own package, in the order in which the events first name them. It lists as many as are counted, and
every test is counted. There are failures exactly if the run has some, and a run that has ended says
so by its status. Nothing of this depends on when a test counts as slow. -/
theorem report_agrees {mode : Mode} {h : History} (hr : h.Reachable mode) : ∀ r ∈ h.runs,
    (∃ events, r.MadeBy mode events ∧ r.Lists events .failed r.failures ∧
      r.Lists events .skipped r.skipped) ∧
    (r.failures.flatMap Group.tests).length = r.counts.failed ∧
    (r.skipped.flatMap Group.tests).length = r.counts.skipped ∧
    r.counts.total = (r.packages.values.map fun p => p.order.length).foldr (· + ·) 0 ∧
    (r.failures ≠ [] ↔ r.hasFailures = true) ∧
    (r.finish.isSome → (r.status = .failed → r.failures ≠ []) ∧
      (r.status = .passed → r.failures = [])) := by
  intro r hm
  have hs := hr.sound r hm
  obtain ⟨events, made⟩ := hr.exists_madeBy r hm
  have failing := hs.failures_ne_nil_iff_hasFailures
  have failures := r.grouping_failures
  have skipped := r.grouping_skipped
  have counts := hs.counts_eq
  refine ⟨⟨events, made, failures.lists hs made, skipped.lists hs made⟩, ?_, ?_, hs.total_counts,
    failing, ?_⟩
  · rw [counts]
    exact failures.length_tests
  · rw [counts]
    exact skipped.length_tests
  · intro ended
    obtain ⟨onlyFailed, notPassed⟩ := ((hr.lifecycle r hm).2 ended).failing
    have listed : r.failures ≠ [] ↔ r.Failing := failing.trans hs.hasFailures_iff
    refine ⟨fun status => listed.2 (onlyFailed status), fun status => ?_⟩
    exact not_ne_iff.1 fun some_failure => notPassed status (listed.1 some_failure)

/-- A test fails after its package has passed, and another package fails without a failed test. -/
theorem report_agrees_late_failure :
    let event (a : Action) (package test : String) : Timestamp × TestEvent :=
      (default, ⟨default, a, package, test, "", none⟩)
    let h := empty.pushAll .live [event .start "b" "", event .run "a" "T", event .pass "a" "",
      event .fail "a" "T", event .skip "b" "U", event .fail "b" ""]
    h.runs.map Run.status = [.failed] ∧
      (h.runs.map fun r => r.failures.map fun g => (g.package.name, g.tests.map Test.name)) =
        [[("b", []), ("a", ["T"])]] ∧
      ∀ r ∈ h.runs, (r.failures.flatMap Group.tests).length = r.counts.failed := by
  intro event h
  have hr : h.Reachable .live := Reachable.start.pushAll _
  exact ⟨by decide, by decide, fun r hm => (report_agrees hr r hm).2.1⟩

end History
end TestWatch
