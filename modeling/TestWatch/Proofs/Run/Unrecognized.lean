import TestWatch.Proofs.Run.Boundary
import TestWatch.Proofs.Run.Growth

/-!
# Events of an unknown kind

An event is looked up before its action is. So one of an unknown kind has no effect of its own, but
the run, the package and the test that it names come into being with it, and it may be the latest
event of its run. It leaves the history as it is exactly if all that is known already.
-/

namespace TestWatch
namespace Run

/-- The run holds what the event names, and has seen an event no earlier than it. -/
structure Knows (r : Run) (e : TestEvent) : Prop where
  package : (r.packages.get? e.package).isSome
  test : e.test = "" ∨ (r.tests.get? e.key).isSome
  time : r.lastEvent.before e.time = false

variable {r : Run} {mode : Mode} {now : Timestamp} {e : TestEvent}

theorem Knows.enlist (h : r.Knows e) (now : Timestamp) : r.enlist now e = r := by
  have observed : r.observe e.time = r := by simp [observe, Timestamp.latest, h.time]
  have ensured : r.ensurePackage e.package e.time now = r := by simp [ensurePackage, h.package]
  unfold Run.enlist
  rw [observed, ensured]
  rcases h.test with none_named | known
  · simp [none_named]
  · simp [ensureTest, known]

theorem isSome_packages_enlist (r : Run) (now : Timestamp) (e : TestEvent) :
    ((r.enlist now e).packages.get? e.package).isSome := by
  have known := packages_ensurePackage (r.observe e.time) e.package e.time now
  obtain ⟨p, hp⟩ := Option.isSome_iff_exists.1 known
  unfold Run.enlist
  split
  · exact known
  · obtain ⟨q, hq, _⟩ := (extends_ensureTest _ now e.key e.time).package _ p hp
    exact Option.isSome_of_eq_some hq

theorem isSome_tests_enlist (r : Run) (now : Timestamp) (named : e.test ≠ "") :
    ((r.enlist now e).tests.get? e.key).isSome := by
  rw [Run.enlist, if_neg named, ensureTest]
  split
  · assumption
  · simp [Table.get?_insert]

/-- Once an event is enlisted, the run knows it. -/
theorem knows_enlist (r : Run) (now : Timestamp) (e : TestEvent) : (r.enlist now e).Knows e where
  package := r.isSome_packages_enlist now e
  test := by
    by_cases named : e.test = ""
    · exact .inl named
    · exact .inr (r.isSome_tests_enlist now named)
  time := by
    have reached := (Timestamp.not_latest_before r.lastEvent e.time).2
    rwa [← lastEvent_enlist r now e, Bool.not_eq_true] at reached

theorem enlist_eq_self_iff : r.enlist now e = r ↔ r.Knows e :=
  ⟨fun same => same ▸ r.knows_enlist now e, fun known => known.enlist now⟩

/-- An event of an unknown kind does no more than name its package and its test. -/
theorem push_of_unknown (unknown : e.action = .unknown) (named : e.package ≠ "") :
    r.push mode now e = r.enlist now e := by
  unfold Run.push applyToPackage applyToTest
  rw [if_neg named, unknown]
  simp

/-- All that the first run holds is in the second one as it was, but that packages may list and
count more tests. -/
structure Undisturbed (r r' : Run) : Prop where
  head : r'.head = r.head
  loose : r'.looseOutput = r.looseOutput
  tests : ∀ k t, r.tests.get? k = some t → r'.tests.get? k = some t
  packages : ∀ n p, r.packages.get? n = some p →
    ∃ order counts, r'.packages.get? n = some { p with order := order, counts := counts }

theorem Undisturbed.refl (r : Run) : r.Undisturbed r :=
  ⟨rfl, rfl, fun _ _ ht => ht, fun _ p hp => ⟨p.order, p.counts, hp⟩⟩

theorem Undisturbed.trans {s : Run} (h : r.Undisturbed s) {t : Run} (h' : s.Undisturbed t) :
    r.Undisturbed t where
  head := h'.head.trans h.head
  loose := h'.loose.trans h.loose
  tests := fun k x hx => h'.tests k x (h.tests k x hx)
  packages := by
    intro n p hp
    obtain ⟨_, _, hq⟩ := h.packages n p hp
    obtain ⟨order, counts, hs⟩ := h'.packages n _ hq
    exact ⟨order, counts, hs⟩

section Enlist

variable (r : Run) (now : Timestamp)

theorem undisturbed_ensurePackage (n : String) (time : Timestamp) :
    r.Undisturbed (r.ensurePackage n time now) := by
  refine ⟨r.head_ensurePackage time now n, ?_, ?_, ?_⟩
  · unfold ensurePackage
    split <;> rfl
  · intro k t ht
    unfold ensurePackage
    split <;> exact ht
  · intro m p hp
    refine ⟨p.order, p.counts, ?_⟩
    rw [get?_ensurePackage]
    by_cases hm : m = n
    · subst hm
      simp [hp]
    · rwa [if_neg hm]

theorem undisturbed_ensureTest (k : TestKey) (time : Timestamp) :
    r.Undisturbed (r.ensureTest k time now) := by
  by_cases known : (r.tests.get? k).isSome
  · rw [ensureTest, if_pos known]
    exact .refl r
  · have absent : r.tests.get? k = none := by simpa using known
    rw [ensureTest, if_neg known]
    refine ⟨rfl, rfl, ?_, ?_⟩
    · intro j t ht
      have other : j ≠ k := by
        rintro rfl
        simp [absent] at ht
      simp [Table.get?_insert, other, ht]
    · intro n p hp
      by_cases hn : n = k.package
      · subst hn
        exact ⟨p.order ++ [k.test], p.counts.enter,
          by simp [Run.modify, Table.get?_modify, hp, Package.enter]⟩
      · exact ⟨p.order, p.counts, by simp [Run.modify, Table.get?_modify, hn, hp]⟩

theorem undisturbed_enlist (e : TestEvent) : r.Undisturbed (r.enlist now e) := by
  have observed : r.Undisturbed (r.observe e.time) := { Undisturbed.refl r with }
  have ensured := observed.trans (undisturbed_ensurePackage _ now e.package e.time)
  unfold Run.enlist
  split
  · exact ensured
  · exact ensured.trans (undisturbed_ensureTest _ now e.key e.time)

end Enlist

end Run

namespace History

variable {mode : Mode} {h : History} {e : TestEvent}

theorem Ordered.push_unknown (ho : h.Ordered) (mode : Mode) (now : Timestamp)
    (unknown : e.action = .unknown) (named : e.package ≠ "") : ∃ (others : List Run) (r : Run),
      (h = ⟨others ++ [r], some others.length⟩ ∨
        h = ⟨others, none⟩ ∧ r = Run.first (others.length + 1) e.time now) ∧
      h.push mode now e = ⟨others ++ [r.enlist now e], some others.length⟩ := by
  have counts : concerns e = true := (concerns_iff e).2 (.inl named)
  have still_open {r : Run} (open_ : r.finish = none) (ended : List Run) :
      withLatest ended (r.push mode now e) = ⟨ended ++ [r.enlist now e], some ended.length⟩ := by
    have finish : (r.enlist now e).finish = none :=
      (congrArg (·.2.2.2.2) (r.head_enlist e now)).trans open_
    simp [Run.push_of_unknown unknown named, withLatest, finish]
  cases ho with
  | @idle ended _ =>
    refine ⟨ended, _, .inr ⟨rfl, rfl⟩, ?_⟩
    rw [push_idle counts, still_open rfl]
  | @busy ended r _ open_ =>
    refine ⟨ended, r, .inl rfl, ?_⟩
    rw [push_busy counts, still_open open_]

/-- An event of an unknown kind leaves the history as it is exactly if it names no package, or if
the run under way knows its package and its test and has seen an event no earlier. Otherwise it
does what any first event does: it begins a run if none is under way, and the run knows it from
then on. In no case does it end the run or disturb what the run holds. -/
theorem unknown_ignored_iff (hr : h.Reachable mode) (now : Timestamp)
    (unknown : e.action = .unknown) :
    (h.push mode now e = h ↔ e.package = "" ∨ ∃ r, h.underWay? = some r ∧ r.Knows e) ∧
    (e.package ≠ "" → ∃ (others : List Run) (r r' : Run),
      (h = ⟨others ++ [r], some others.length⟩ ∨
        h = ⟨others, none⟩ ∧ r = Run.first (others.length + 1) e.time now) ∧
      h.push mode now e = ⟨others ++ [r'], some others.length⟩ ∧
      (r' = r ↔ r.Knows e) ∧ r'.Knows e ∧ r.Undisturbed r') := by
  constructor
  · by_cases named : e.package = ""
    · have ignored : concerns e = false := by simp [concerns, named, unknown, Action.isBuild]
      simp [push_of_not_concerns h ignored, named]
    · obtain ⟨others, r, this_run, pushed⟩ := hr.ordered.push_unknown mode now unknown named
      rw [pushed]
      rcases this_run with rfl | ⟨rfl, rfl⟩
      · simp [named, underWay?, Run.enlist_eq_self_iff]
      · simp [named, underWay?]
  · intro named
    obtain ⟨others, r, this_run, pushed⟩ := hr.ordered.push_unknown mode now unknown named
    exact ⟨others, r, _, this_run, pushed, Run.enlist_eq_self_iff, r.knows_enlist now e,
      r.undisturbed_enlist now e⟩

/-- A test that is known is named once more, by an event of an unknown kind. -/
theorem unknown_ignored_iff_known_test :
    let started : TestEvent := ⟨⟨5, 0, 0⟩, .run, "p", "T", "", none⟩
    let h := empty.pushAll .live [(default, started)]
    let e : TestEvent := ⟨⟨4, 0, 0⟩, .unknown, "p", "T", "x", none⟩
    h.push .live default e = h := by
  intro started h e
  have hr : h.Reachable .live := Reachable.start.pushAll _
  have unknown : e.action = .unknown := rfl
  exact (unknown_ignored_iff hr default unknown).1.2
    (.inr ⟨_, rfl, by decide, by decide, by decide⟩)

/-- One event of an unknown kind begins a run with a package. -/
theorem unknown_not_ignored :
    ¬ ∀ (mode : Mode) (h : History), h.Reachable mode → ∀ (now : Timestamp) (e : TestEvent),
      e.action = .unknown → h.push mode now e = h := by
  intro ignored
  have same := ignored .live empty .start default ⟨default, .unknown, "p", "", "", none⟩ rfl
  exact absurd same (by decide)

end History
end TestWatch
