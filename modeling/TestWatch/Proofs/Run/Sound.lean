import TestWatch.Proofs.Run.Reachable
import TestWatch.Proofs.Run.Tally
import Mathlib.Data.List.Nodup

/-!
# What a run keeps about its packages and tests

A run keeps the same facts in several places: statuses, the counts of each package, its own counts,
the order of tests, and the table of all tests. `Run.Sound` says that they agree. Every history that
comes about has only sound runs, and where an outcome takes one from a counter there is one to take.
-/

namespace TestWatch
namespace Run

/-- The places in which a run keeps its facts agree. -/
structure Sound (r : Run) : Prop where
  packageName : ∀ n p, r.packages.get? n = some p → p.name = n
  /-- A test is stored exactly if its package lists it. -/
  stored : ∀ k, (r.tests.get? k).isSome ↔
    ∃ p, r.packages.get? k.package = some p ∧ k.test ∈ p.order
  testKey : ∀ k t, r.tests.get? k = some t → t.package = k.package ∧ t.name = k.test
  orderNodup : ∀ n p, r.packages.get? n = some p → p.order.Nodup
  testStatus : ∀ k t, r.tests.get? k = some t → t.status ≠ .unknown ∧ t.status ≠ .interrupted
  packageStatus : ∀ n p, r.packages.get? n = some p → p.status ≠ .unknown ∧ p.status ≠ .paused
  packageCounts : ∀ n p, r.packages.get? n = some p → p.counts = .ofTests (r.testsIn p)
  runCounts : r.counts = .sum (r.packages.values.map Package.counts)
  running : r.running = r.packages.values.countP fun p => p.status == .running

/-- Where an outcome takes one from a counter, the counter is positive. -/
structure Covered (r : Run) : Prop where
  packages : ∀ n p, r.packages.get? n = some p → p.status.isTerminal = false → 0 < r.running
  tests : ∀ k t p, r.tests.get? k = some t → r.packages.get? k.package = some p →
    t.status.isTerminal = false → 0 < p.counts.running ∧ 0 < r.counts.running

theorem sound_first (id : Nat) (time now : Timestamp) : (first id time now).Sound := by
  constructor <;> simp [first, Counts.zero, Counts.sum]

/-- Times, loose output and the status of the run play no part. -/
theorem Sound.of_eq {r r' : Run} (h : r.Sound) (hp : r'.packages = r.packages)
    (ht : r'.tests = r.tests) (hc : r'.counts = r.counts) (hr : r'.running = r.running) :
    r'.Sound := by
  obtain ⟨_, _, packages, tests, counts, running⟩ := r'
  cases hp
  cases ht
  cases hc
  cases hr
  exact ⟨h.packageName, h.stored, h.testKey, h.orderNodup, h.testStatus, h.packageStatus,
    h.packageCounts, h.runCounts, h.running⟩

theorem countP_values_modify {t : Table String Package} {n : String} {p : Package}
    (h : t.get? n = some p) (f : Package → Package) (q : Package → Bool) :
    (t.modify n f).values.countP q + (if q p then 1 else 0) =
      t.values.countP q + (if q (f p) then 1 else 0) := by
  obtain ⟨xs, ys, hs, hf⟩ := Table.exists_values_modify h f
  simp only [hs, hf, List.countP_append, List.countP_cons]
  omega

theorem sum_values_modify {t : Table String Package} {n : String} {p : Package}
    (h : t.get? n = some p) (f : Package → Package) :
    ∃ c, Counts.sum (t.values.map Package.counts) = p.counts.plus c ∧
      Counts.sum ((t.modify n f).values.map Package.counts) = (f p).counts.plus c := by
  obtain ⟨xs, ys, hs, hf⟩ := Table.exists_values_modify h f
  refine ⟨Counts.sum (xs.map Package.counts ++ ys.map Package.counts), ?_, ?_⟩
  · rw [hs, List.map_append, List.map_cons, Counts.sum_middle]
  · rw [hf, List.map_append, List.map_cons, Counts.sum_middle]

theorem testsIn_congr {r r' : Run} {p : Package}
    (h : ∀ x ∈ p.order, r'.tests.get? ⟨p.name, x⟩ = r.tests.get? ⟨p.name, x⟩) :
    r'.testsIn p = r.testsIn p :=
  List.filterMap_congr h

/-- The package `p` becomes `f p`, and at most its own tests change with it. -/
theorem Sound.update {r r' : Run} (h : r.Sound) {n : String} {p : Package}
    (hp : r.packages.get? n = some p) {f : Package → Package}
    (packages : r'.packages = r.packages.modify n f) (name : (f p).name = p.name)
    (nodup : (f p).order.Nodup) (status : (f p).status ≠ .unknown ∧ (f p).status ≠ .paused)
    (others : ∀ k, k.package ≠ n → r'.tests.get? k = r.tests.get? k)
    (stored : ∀ x, (r'.tests.get? ⟨n, x⟩).isSome ↔ x ∈ (f p).order)
    (tests : ∀ x t, r'.tests.get? ⟨n, x⟩ = some t →
      (t.package = n ∧ t.name = x) ∧ t.status ≠ .unknown ∧ t.status ≠ .interrupted)
    (counts : (f p).counts = .ofTests (r'.testsIn (f p)))
    (runCounts : ∀ c, r.counts = p.counts.plus c → r'.counts = (f p).counts.plus c)
    (running : r'.running + (if p.status == .running then 1 else 0) =
      r.running + (if (f p).status == .running then 1 else 0)) :
    r'.Sound := by
  have at_n : r'.packages.get? n = some (f p) := by
    simp [packages, Table.get?_modify, hp]
  have at_other {m : String} (hm : m ≠ n) : r'.packages.get? m = r.packages.get? m := by
    simp [packages, Table.get?_modify, hm]
  -- What holds of `f p` and of all other packages holds of each package.
  have each {P : String → Package → Prop} (hf : P n (f p))
      (ho : ∀ m q, m ≠ n → r.packages.get? m = some q → P m q) :
      ∀ m q, r'.packages.get? m = some q → P m q := by
    rw [packages]
    refine Table.forall_get?_modify (fun q hq => ?_) ho
    rw [hp] at hq
    cases hq
    exact hf
  constructor
  case packageName => exact each (name.trans (h.packageName n p hp)) fun m q _ => h.packageName m q
  case orderNodup => exact each nodup fun m q _ => h.orderNodup m q
  case packageStatus => exact each status fun m q _ => h.packageStatus m q
  case packageCounts =>
    refine each counts fun m q hm hq => ?_
    have hn := h.packageName m q hq
    rw [h.packageCounts m q hq, testsIn_congr fun x _ => others _ (hn ▸ hm)]
  case stored =>
    intro k
    by_cases hk : k.package = n
    · obtain ⟨m, x⟩ := k
      cases hk
      simpa [at_n] using stored x
    · rw [others k hk, at_other hk]
      exact h.stored k
  case testKey =>
    intro k t ht
    by_cases hk : k.package = n
    · obtain ⟨m, x⟩ := k
      cases hk
      exact (tests x t ht).1
    · exact h.testKey k t (others k hk ▸ ht)
  case testStatus =>
    intro k t ht
    by_cases hk : k.package = n
    · obtain ⟨m, x⟩ := k
      cases hk
      exact (tests x t ht).2
    · exact h.testStatus k t (others k hk ▸ ht)
  case runCounts =>
    obtain ⟨c, hc, hf⟩ := sum_values_modify hp f
    rw [packages, hf]
    exact runCounts c (h.runCounts.trans hc)
  case running =>
    have hc := countP_values_modify hp f fun p => p.status == .running
    rw [← h.running, ← packages] at hc
    omega

/-- A package may change all but its name, its tests and their counts. -/
theorem Sound.modify {r r' : Run} (h : r.Sound) {n : String} {p : Package}
    (hp : r.packages.get? n = some p) {f : Package → Package}
    (packages : r'.packages = r.packages.modify n f) (tests : r'.tests = r.tests)
    (runCounts : r'.counts = r.counts) (name : (f p).name = p.name)
    (order : (f p).order = p.order) (counts : (f p).counts = p.counts)
    (status : (f p).status ≠ .unknown ∧ (f p).status ≠ .paused)
    (running : r'.running + (if p.status == .running then 1 else 0) =
      r.running + (if (f p).status == .running then 1 else 0)) :
    r'.Sound := by
  apply h.update hp packages name (order ▸ h.orderNodup n p hp) status
  case others => exact fun k _ => by rw [tests]
  case stored =>
    intro x
    simpa [tests, order, hp] using h.stored ⟨n, x⟩
  case tests =>
    intro x t ht
    rw [tests] at ht
    exact ⟨h.testKey _ t ht, h.testStatus _ t ht⟩
  case counts =>
    have ht : r'.testsIn (f p) = r.testsIn (f p) := testsIn_congr fun x _ => by rw [tests]
    rw [counts, h.packageCounts n p hp, ht, testsIn, testsIn, order, name]
  case runCounts =>
    intro c hc
    rw [runCounts, counts, hc]
  case running => exact running

/-- A test of a package is shown at one place, and a change of it is a change at that place. -/
theorem exists_testsIn_modifyTest {r r' : Run} (h : r.Sound) {k : TestKey} {p : Package} {t : Test}
    (hp : r.packages.get? k.package = some p) (ht : r.tests.get? k = some t) {f : Test → Test}
    (tests : r'.tests = r.tests.modify k f) :
    ∃ xs ys, r.testsIn p = xs ++ t :: ys ∧ r'.testsIn p = xs ++ f t :: ys := by
  obtain ⟨q, hq, hk⟩ := (h.stored k).1 (by simp [ht])
  rw [hp] at hq
  cases hq
  obtain ⟨xs, ys, hs⟩ := List.append_of_mem hk
  have hn := h.orderNodup _ p hp
  rw [hs, List.nodup_append, List.nodup_cons] at hn
  have hname := h.packageName _ p hp
  have keep (zs : List String) (hz : k.test ∉ zs) :
      zs.filterMap (r'.test? p.name) = zs.filterMap (r.test? p.name) := by
    refine List.filterMap_congr fun x hx => ?_
    have hne : (⟨p.name, x⟩ : TestKey) ≠ k := fun he => hz (he ▸ hx)
    simp [test?, tests, Table.get?_modify, hne]
  have here : r.test? p.name k.test = some t := by
    rw [test?, hname, ht]
  have there : r'.test? p.name k.test = some (f t) := by
    rw [test?, hname, tests, Table.get?_modify, if_pos rfl, ht]
    rfl
  refine ⟨xs.filterMap (r.test? p.name), ys.filterMap (r.test? p.name), ?_, ?_⟩
  · rw [testsIn, hs, List.filterMap_append, List.filterMap_cons, here]
  · have hx : k.test ∉ xs := fun hm => hn.2.2 _ hm _ (by simp) rfl
    rw [testsIn, hs, List.filterMap_append, List.filterMap_cons, there, keep xs hx,
      keep ys hn.2.1.1]

/-- A test becomes `f t`, and the counts of its package and of the run follow. -/
theorem Sound.modifyTest {r r' : Run} (h : r.Sound) {k : TestKey} {p : Package} {t : Test}
    (hp : r.packages.get? k.package = some p) (ht : r.tests.get? k = some t)
    {f : Test → Test} {c : Counts → Counts}
    (packages : r'.packages = r.packages.modify k.package fun p => { p with counts := c p.counts })
    (tests : r'.tests = r.tests.modify k f)
    (key : (f t).package = t.package ∧ (f t).name = t.name)
    (status : (f t).status ≠ .unknown ∧ (f t).status ≠ .interrupted)
    (counts : ∀ xs ys, Counts.ofTests (xs ++ f t :: ys) = c (.ofTests (xs ++ t :: ys)))
    (runCounts : ∀ d, r.counts = p.counts.plus d → r'.counts = (c p.counts).plus d)
    (running : r'.running = r.running) : r'.Sound := by
  apply h.update hp packages rfl (h.orderNodup _ p hp) (h.packageStatus _ p hp)
  case others =>
    intro j hj
    have : j ≠ k := fun he => hj (he ▸ rfl)
    simp [tests, Table.get?_modify, this]
  case stored =>
    intro x
    have hx := h.stored ⟨k.package, x⟩
    by_cases hk : (⟨k.package, x⟩ : TestKey) = k
    · simpa [tests, Table.get?_modify, hk, hp] using hx
    · simpa [tests, Table.get?_modify, hk, hp] using hx
  case tests =>
    intro x u hu
    rw [tests, Table.get?_modify] at hu
    by_cases hk : (⟨k.package, x⟩ : TestKey) = k
    · rw [if_pos hk, hk, ht] at hu
      cases hu
      rw [key.1, key.2]
      exact ⟨hk ▸ h.testKey k t ht, status⟩
    · rw [if_neg hk] at hu
      exact ⟨h.testKey _ u hu, h.testStatus _ u hu⟩
  case counts =>
    obtain ⟨xs, ys, hs, hf⟩ := exists_testsIn_modifyTest h hp ht tests
    change c p.counts = .ofTests (r'.testsIn p)
    rw [h.packageCounts _ p hp, hs, hf, counts]
  case runCounts => exact runCounts
  case running => simp [running]

/-- The test changes, but counts as before. -/
theorem Sound.modifyTest_of_ofTests {r : Run} (h : r.Sound) {k : TestKey} {f : Test → Test}
    (hf : ∀ t, t.status ≠ .unknown → t.status ≠ .interrupted →
      ((f t).package = t.package ∧ (f t).name = t.name) ∧
        ((f t).status ≠ .unknown ∧ (f t).status ≠ .interrupted) ∧
        Counts.ofTests [f t] = .ofTests [t]) :
    (r.modifyTest k f).Sound := by
  cases ht : r.tests.get? k with
  | none =>
    have he : r.tests.modify k f = r.tests := Table.modify_of_get?_eq_none ht f
    exact h.of_eq rfl he rfl rfl
  | some t =>
    obtain ⟨p, hp, _⟩ := (h.stored k).1 (by simp [ht])
    obtain ⟨hu, hi⟩ := h.testStatus k t ht
    obtain ⟨key, status, counts⟩ := hf t hu hi
    exact h.modifyTest (c := fun c => c) hp ht (Table.modify_id _ _).symm rfl key status
      (fun xs ys => Counts.ofTests_replace xs ys counts) (fun d hd => hd) rfl

theorem packages_ensurePackage (r : Run) (n : String) (time now : Timestamp) :
    ((r.ensurePackage n time now).packages.get? n).isSome := by
  unfold ensurePackage
  by_cases h : (r.packages.get? n).isSome
  · rwa [if_pos h]
  · rw [if_neg h]
    simp [Table.get?_insert]

theorem Sound.ensurePackage {r : Run} (h : r.Sound) (n : String) (time now : Timestamp) :
    (r.ensurePackage n time now).Sound := by
  unfold Run.ensurePackage
  by_cases hn : (r.packages.get? n).isSome
  · rwa [if_pos hn]
  rw [if_neg hn]
  have absent : r.packages.get? n = none := by simpa using hn
  have fresh : n ∉ r.packages.keys := (Table.get?_eq_none_iff _ n).1 absent
  have each {P : String → Package → Prop} (hf : P n (.first n time now))
      (ho : ∀ m q, r.packages.get? m = some q → P m q) :
      ∀ m q, (r.packages.insert n (.first n time now)).get? m = some q → P m q :=
    Table.forall_get?_insert hf fun m q _ => ho m q
  constructor
  case packageName => exact each rfl h.packageName
  case orderNodup => exact each .nil h.orderNodup
  case packageStatus => exact each (by simp [Package.first]) h.packageStatus
  case packageCounts => exact each rfl h.packageCounts
  case testKey => exact h.testKey
  case testStatus => exact h.testStatus
  case stored =>
    intro k
    have hk := h.stored k
    by_cases he : k.package = n
    · simp only [he, absent, reduceCtorEq, false_and, exists_false, iff_false] at hk
      simpa [Table.get?_insert, he, Package.first] using hk
    · simpa [Table.get?_insert, he] using hk
  case runCounts =>
    have hz := Counts.sum_middle (r.packages.values.map Package.counts) [] .zero
    simp only [Table.values_insert_of_notMem _ fresh, List.map_append, List.map_cons, List.map_nil]
    rw [h.runCounts]
    simpa [Package.first, Counts.zero_plus] using hz.symm
  case running =>
    simp [Table.values_insert_of_notMem _ fresh, h.running, Package.first]

/-- A test that was not there before is listed by its package and counts as running. -/
theorem Sound.insertTest {r r' : Run} (h : r.Sound) {k : TestKey} {p : Package}
    (hp : r.packages.get? k.package = some p) (hk : r.tests.get? k = none) {time now : Timestamp}
    (packages : r'.packages = r.packages.modify k.package (Package.enter k.test))
    (tests : r'.tests = r.tests.insert k (.first k time now))
    (runCounts : r'.counts = r.counts.enter) (running : r'.running = r.running) : r'.Sound := by
  have unlisted : k.test ∉ p.order := by
    intro hm
    have := (h.stored k).2 ⟨p, hp, hm⟩
    simp [hk] at this
  have nodup : (p.enter k.test).order.Nodup := by
    rw [Package.enter, List.nodup_append]
    refine ⟨h.orderNodup _ p hp, by simp, ?_⟩
    intro x hx y hy hxy
    rw [hxy, List.mem_singleton.1 hy] at hx
    exact unlisted hx
  apply h.update hp packages rfl nodup (h.packageStatus _ p hp)
  case others =>
    intro j hj
    have : j ≠ k := fun he => hj (he ▸ rfl)
    simp [tests, Table.get?_insert, this]
  case stored =>
    intro x
    have hx := h.stored ⟨k.package, x⟩
    by_cases he : x = k.test
    · simp [he, tests, Package.enter, Table.get?_insert]
    · have hne : (⟨k.package, x⟩ : TestKey) ≠ k := fun hek => he (hek ▸ rfl)
      simpa [tests, Table.get?_insert, hne, Package.enter, hp, he] using hx
  case tests =>
    intro x t ht
    rw [tests, Table.get?_insert] at ht
    by_cases he : (⟨k.package, x⟩ : TestKey) = k
    · rw [if_pos he] at ht
      cases ht
      exact ⟨⟨rfl, he ▸ rfl⟩, by simp [Test.first]⟩
    · rw [if_neg he] at ht
      exact ⟨h.testKey _ t ht, h.testStatus _ t ht⟩
  case counts =>
    -- The new test stands behind the old ones, of which none changes.
    have old : r'.testsIn p = r.testsIn p := by
      refine testsIn_congr fun x hx => ?_
      have hne : (⟨p.name, x⟩ : TestKey) ≠ k := fun he => unlisted (he ▸ hx)
      simp [tests, Table.get?_insert, hne]
    have new : r'.test? p.name k.test = some (.first k time now) := by
      simp [test?, tests, Table.get?_insert, h.packageName _ p hp]
    calc (p.enter k.test).counts
      _ = (Counts.ofTests (r.testsIn p)).enter := by rw [← h.packageCounts _ p hp]; rfl
      _ = .ofTests (r'.testsIn p ++ [.first k time now]) := by
        rw [old, Counts.ofTests_enter _ rfl]
      _ = .ofTests (r'.testsIn (p.enter k.test)) := by
        simp [testsIn, Package.enter, List.filterMap_append, new]
  case runCounts =>
    intro c hc
    rw [runCounts, hc, ← Counts.enter_plus]
    rfl
  case running =>
    rw [running]
    rfl

theorem Sound.ensureTest {r : Run} (h : r.Sound) {k : TestKey} {p : Package}
    (hp : r.packages.get? k.package = some p) (time now : Timestamp) :
    (r.ensureTest k time now).Sound := by
  unfold Run.ensureTest
  by_cases hk : (r.tests.get? k).isSome
  · rwa [if_pos hk]
  · rw [if_neg hk]
    exact h.insertTest hp (by simpa using hk) rfl rfl rfl rfl

theorem Sound.enlist {r : Run} (h : r.Sound) (now : Timestamp) (e : TestEvent) :
    (r.enlist now e).Sound := by
  have observed : (r.observe e.time).Sound := h.of_eq rfl rfl rfl rfl
  have hs := observed.ensurePackage e.package e.time now
  unfold Run.enlist
  by_cases he : e.test = ""
  · simpa [he] using hs
  · obtain ⟨p, hp⟩ := Option.isSome_iff_exists.1
      (packages_ensurePackage (r.observe e.time) e.package e.time now)
    simpa [he] using hs.ensureTest (k := e.key) hp e.time now

theorem Sound.map_name {r : Run} (h : r.Sound) :
    r.packages.values.map Package.name = r.packages.keys := by
  rw [Table.values, Table.keys, List.map_map]
  apply List.map_congr_left
  rintro ⟨n, p⟩ he
  exact h.packageName n p ((Table.get?_eq_some_iff _ n p).2 he)

/-- The keys of the tests of a package are its name with those in its order. -/
theorem Sound.map_key_testsIn {r : Run} (h : r.Sound) {p : Package} (hp : p ∈ r.packages.values) :
    (r.testsIn p).map (fun t => TestKey.mk t.package t.name) =
      p.order.map (TestKey.mk p.name) := by
  obtain ⟨n, hn⟩ := (Table.mem_values _ p).1 hp
  have name := h.packageName n p hn
  rw [testsIn, List.map_filterMap, ← List.filterMap_eq_map]
  apply List.filterMap_congr
  intro x hx
  have : (r.tests.get? ⟨p.name, x⟩).isSome := (h.stored ⟨p.name, x⟩).2 ⟨p, by rw [name, hn], hx⟩
  obtain ⟨t, ht⟩ := Option.isSome_iff_exists.1 this
  obtain ⟨hp', hx'⟩ := h.testKey _ t ht
  simp [test?, ht, hp', hx']

theorem Sound.map_name_testsIn {r : Run} (h : r.Sound) {p : Package}
    (hp : p ∈ r.packages.values) : (r.testsIn p).map Test.name = p.order := by
  have names := congrArg (List.map TestKey.test) (h.map_key_testsIn hp)
  simpa [Function.comp_def] using names

theorem Sound.package_eq {r : Run} (h : r.Sound) {p : Package} (hp : p ∈ r.packages.values)
    {t : Test} (ht : t ∈ r.testsIn p) : t.package = p.name := by
  have hk := List.mem_map_of_mem (f := fun t : Test => TestKey.mk t.package t.name) ht
  rw [h.map_key_testsIn hp] at hk
  obtain ⟨x, _, hx⟩ := List.mem_map.1 hk
  exact (TestKey.mk.inj hx).1.symm

/-- No two tests have the same key, whichever packages they are taken from. -/
theorem Sound.nodup_keys_of_sublist {r : Run} (h : r.Sound) {ps : List Package}
    (hps : ps.Sublist r.packages.values) :
    (ps.flatMap fun p => p.order.map (TestKey.mk p.name)).Nodup := by
  rw [List.nodup_flatMap]
  constructor
  · intro p hp
    obtain ⟨n, hn⟩ := (Table.mem_values _ p).1 (hps.subset hp)
    exact (h.orderNodup n p hn).map fun x y hxy => (TestKey.mk.inj hxy).2
  · have names : (r.packages.values.map Package.name).Nodup := by
      rw [h.map_name]
      exact r.packages.nodup
    refine ((List.pairwise_map.1 names).sublist hps).imp ?_
    intro p q hpq k hp hq
    obtain ⟨x, _, rfl⟩ := List.mem_map.1 hp
    obtain ⟨y, _, hy⟩ := List.mem_map.1 hq
    exact hpq (TestKey.mk.inj hy).1.symm

theorem Sound.length_testsIn {r : Run} (h : r.Sound) {n : String} {p : Package}
    (hp : r.packages.get? n = some p) : (r.testsIn p).length = p.order.length := by
  simpa using congrArg List.length (h.map_name_testsIn (Table.mem_values_of_get? hp))

theorem Sound.total {r : Run} (h : r.Sound) {n : String} {p : Package}
    (hp : r.packages.get? n = some p) : p.counts.total = p.order.length := by
  rw [h.packageCounts n p hp, ← h.length_testsIn hp]
  apply Counts.total_ofTests
  intro t ht
  obtain ⟨x, _, hx⟩ := List.mem_filterMap.1 ht
  exact h.testStatus _ t hx

/-- In a sound run a counter is positive as long as it counts something. -/
theorem Sound.covered {r : Run} (h : r.Sound) : r.Covered := by
  constructor
  · intro n p hp ht
    obtain ⟨hu, hs⟩ := h.packageStatus n p hp
    have : p.status = .running := by
      cases hst : p.status <;> simp_all [Status.isTerminal]
    rw [h.running, List.countP_pos_iff]
    exact ⟨p, Table.mem_values_of_get? hp, by simp [this]⟩
  · intro k t p ht hp hs
    have same : r.tests = r.tests.modify k fun t => t := (Table.modify_id _ _).symm
    obtain ⟨xs, ys, hsplit, _⟩ := exists_testsIn_modifyTest h hp ht same
    have one := Counts.running_ofTests_singleton hs (h.testStatus k t ht).1
    have here : 0 < p.counts.running := by
      rw [h.packageCounts _ p hp, hsplit, Counts.ofTests_middle, Counts.plus]
      simp only [one]
      omega
    have le : p.counts.running ≤ r.counts.running := by
      rw [h.runCounts]
      exact Counts.running_le_sum (List.mem_map.2 ⟨p, Table.mem_values_of_get? hp, rfl⟩)
    exact ⟨here, by omega⟩

theorem Sound.finishTest {r : Run} (h : r.Sound) (k : TestKey) {s : Status}
    (hs : s = .passed ∨ s = .failed ∨ s = .skipped) (d : Duration) : (r.finishTest k s d).Sound := by
  unfold Run.finishTest
  cases ht : r.tests.get? k with
  | none => exact h
  | some t =>
    cases hst : t.status.isTerminal with
    | true => simpa [hst] using h
    | false =>
      obtain ⟨p, hp, _⟩ := (h.stored k).1 (by simp [ht])
      obtain ⟨hpos, _⟩ := h.covered.tests k t p ht hp hst
      have one := Counts.running_ofTests_singleton hst (h.testStatus k t ht).1
      simp only [hst, Bool.false_eq_true, ↓reduceIte]
      refine h.modifyTest (c := Counts.finish s) hp ht rfl rfl ⟨rfl, rfl⟩ ?_
        (Counts.ofTests_complete hs d one) ?_ rfl
      · rcases hs with rfl | rfl | rfl <;> simp [Test.complete]
      · intro c hc
        change r.counts.finish s = _
        rw [hc, Counts.finish_plus s c hpos]

theorem Sound.finishPackage {r r' : Run} (h : r.Sound) {n : String} {s : Status}
    (hs : s = .passed ∨ s = .failed ∨ s = .skipped) {d : Duration}
    (hr : r.finishPackage? n s d = some r') : r'.Sound := by
  unfold finishPackage? at hr
  cases hp : r.packages.get? n with
  | none => simp [hp] at hr
  | some p =>
    cases hst : p.status.isTerminal with
    | true => simp [hp, hst] at hr
    | false =>
      have hpos := h.covered.packages n p hp hst
      obtain ⟨hu, hpa⟩ := h.packageStatus n p hp
      have run : p.status = .running := by
        cases hst : p.status <;> simp_all [Status.isTerminal]
      simp only [hp, hst, Bool.false_eq_true, ↓reduceIte, Option.some.injEq] at hr
      subst hr
      refine h.modify hp (f := Package.complete s d) rfl rfl rfl rfl rfl rfl ?_ ?_
      · rcases hs with rfl | rfl | rfl <;> simp [Package.complete]
      · rcases hs with rfl | rfl | rfl <;> simp [Package.complete, run] <;> omega

theorem Sound.settle {r : Run} (h : r.Sound) (mode : Mode) (now : Timestamp) :
    (r.settle mode now).Sound := by
  unfold Run.settle
  by_cases hr : 0 < r.running ∨ r.packages.isEmpty
  · rwa [if_pos hr]
  · rw [if_neg hr]
    exact h.of_eq rfl rfl rfl rfl

theorem Sound.pushOutcome {r : Run} (h : r.Sound) (mode : Mode) (now : Timestamp) (e : TestEvent)
    {s : Status} (hs : s = .passed ∨ s = .failed ∨ s = .skipped) :
    (r.pushOutcome mode now e s).Sound := by
  unfold Run.pushOutcome
  cases hf : r.finishPackage? e.package s e.elapsedTime with
  | none => exact h
  | some r' => exact (h.finishPackage hs hf).settle mode now

theorem Sound.print {r : Run} (h : r.Sound) (e : TestEvent) :
    (r.modify e.package (Package.print e)).Sound := by
  have kept (p : Package) : (p.print e).name = p.name ∧ (p.print e).order = p.order ∧
      (p.print e).counts = p.counts ∧ (p.print e).status = p.status := by
    unfold Package.print
    split <;> simp
  cases hp : r.packages.get? e.package with
  | none => exact h.of_eq (Table.modify_of_get?_eq_none hp _) rfl rfl rfl
  | some p =>
    obtain ⟨name, order, counts, status⟩ := kept p
    exact h.modify hp rfl rfl rfl name order counts (status ▸ h.packageStatus _ p hp)
      (by rw [status]; rfl)

theorem Sound.applyToPackage {r : Run} (h : r.Sound) (mode : Mode) (now : Timestamp)
    (e : TestEvent) : (r.applyToPackage mode now e).Sound := by
  unfold Run.applyToPackage
  cases e.action
  case output => exact h.print e
  case pass => exact h.pushOutcome mode now e (by simp)
  case fail => exact h.pushOutcome mode now e (by simp)
  case skip => exact h.pushOutcome mode now e (by simp)
  all_goals exact h

theorem Sound.setStatus {r : Run} (h : r.Sound) (k : TestKey) {s : Status}
    (hs : s = .running ∨ s = .paused) : (r.modifyTest k (Test.setStatus s)).Sound := by
  refine h.modifyTest_of_ofTests fun t hu hi => ?_
  unfold Test.setStatus
  cases hst : t.status <;> rcases hs with rfl | rfl <;>
    simp_all [Status.isTerminal, Counts.ofTests]

theorem Sound.printTest {r : Run} (h : r.Sound) (k : TestKey) (e : TestEvent) :
    (r.modifyTest k (Test.print e)).Sound := by
  refine h.modifyTest_of_ofTests fun t hu hi => ?_
  unfold Test.print
  split
  · exact ⟨⟨rfl, rfl⟩, ⟨hu, hi⟩, rfl⟩
  · split
    · exact ⟨⟨rfl, rfl⟩, ⟨hu, hi⟩, rfl⟩
    · exact ⟨⟨rfl, rfl⟩, ⟨hu, hi⟩, rfl⟩

theorem Sound.applyToTest {r : Run} (h : r.Sound) (e : TestEvent) : (r.applyToTest e).Sound := by
  unfold Run.applyToTest
  cases e.action
  case run => exact h.setStatus e.key (by simp)
  case resume => exact h.setStatus e.key (by simp)
  case pause => exact h.setStatus e.key (by simp)
  case output => exact h.printTest e.key e
  case pass => exact h.finishTest e.key (by simp) _
  case fail => exact h.finishTest e.key (by simp) _
  case skip => exact h.finishTest e.key (by simp) _
  all_goals exact h

theorem Sound.push {r : Run} (h : r.Sound) (mode : Mode) (now : Timestamp) (e : TestEvent) :
    (r.push mode now e).Sound := by
  unfold Run.push
  by_cases hp : e.package = ""
  · rw [if_pos hp]
    unfold printLoose
    by_cases hl : e.line.isEmpty
    · rw [if_pos hl]
      exact h.of_eq rfl rfl rfl rfl
    · rw [if_neg hl]
      exact h.of_eq rfl rfl rfl rfl
  rw [if_neg hp]
  by_cases ht : e.test = ""
  · rw [if_pos ht]
    exact (h.enlist now e).applyToPackage mode now e
  · rw [if_neg ht]
    exact (h.enlist now e).applyToTest e

theorem cutOff_fields (mode : Mode) (stop : Timestamp) (r : Run) (p : Package) :
    (r.cutOff mode stop p).name = p.name ∧ (r.cutOff mode stop p).order = p.order ∧
      (r.cutOff mode stop p).counts = p.counts := by
  unfold cutOff
  split <;> simp [Package.complete]

theorem status_cutOff (mode : Mode) (stop : Timestamp) (r : Run) (p : Package) :
    (r.cutOff mode stop p).status = if p.status = .running then .interrupted else p.status := by
  unfold cutOff
  split <;> rfl

/-- Closing interrupts the packages that are running, and leaves none of them. -/
theorem Sound.close {r : Run} (h : r.Sound) (mode : Mode) (now : Timestamp) :
    (r.close mode now).Sound := by
  have fields := r.cutOff_fields mode (r.endTime mode now)
  have status := r.status_cutOff mode (r.endTime mode now)
  have get (n : String) : (r.close mode now).packages.get? n =
      (r.packages.get? n).map (r.cutOff mode (r.endTime mode now)) := Table.get?_mapValues _ _ n
  have values : (r.close mode now).packages.values =
      r.packages.values.map (r.cutOff mode (r.endTime mode now)) := Table.values_mapValues _ _
  have each {P : String → Package → Prop}
      (ho : ∀ m q, r.packages.get? m = some q → P m (r.cutOff mode (r.endTime mode now) q)) :
      ∀ m q, (r.close mode now).packages.get? m = some q → P m q :=
    Table.forall_get?_mapValues ho
  constructor
  case packageName => exact each fun m q hq => (fields q).1.trans (h.packageName m q hq)
  case orderNodup => exact each fun m q hq => (fields q).2.1 ▸ h.orderNodup m q hq
  case testKey => exact h.testKey
  case testStatus => exact h.testStatus
  case packageStatus =>
    refine each fun m q hq => ?_
    rw [status]
    split
    · simp
    · exact h.packageStatus m q hq
  case packageCounts =>
    refine each fun m q hq => ?_
    obtain ⟨name, order, counts⟩ := fields q
    have same : (r.close mode now).testsIn (r.cutOff mode (r.endTime mode now) q) =
        r.testsIn q := by
      rw [testsIn, order, name]
      rfl
    rw [counts, same, h.packageCounts m q hq]
  case stored =>
    intro k
    rw [get]
    have hk := h.stored k
    change (r.tests.get? k).isSome ↔ _
    cases hp : r.packages.get? k.package with
    | none => simpa [hp] using hk
    | some p => simpa [hp, (fields p).2.1] using hk
  case runCounts =>
    have comp : Package.counts ∘ r.cutOff mode (r.endTime mode now) = Package.counts :=
      funext fun p => (fields p).2.2
    rw [values, List.map_map, comp]
    exact h.runCounts
  case running =>
    rw [values]
    change 0 = _
    rw [eq_comm, List.countP_eq_zero]
    intro q hq
    obtain ⟨p, _, rfl⟩ := List.mem_map.1 hq
    rw [status]
    split <;> simp_all

end Run

namespace History

theorem Reachable.sound {mode : Mode} {h : History} (hr : h.Reachable mode) :
    ∀ r ∈ h.runs, r.Sound :=
  hr.forall_runs Run.sound_first (fun now e _ _ _ hs => hs.push mode now e)
    (fun now _ _ hs => hs.close mode now)

/-- The run that an event finds under way, or that it starts. -/
theorem Reachable.sound_ensureRun {mode : Mode} {h : History} (hr : h.Reachable mode)
    (time now : Timestamp) {r : Run} (hu : (h.ensureRun time now).underWay? = some r) :
    r.Sound := by
  cases hr.ordered with
  | @idle ended hs =>
    simp only [ensureRun, underWay?, Option.isSome_none, Bool.false_eq_true, ↓reduceIte,
      Option.bind_some, List.getElem?_concat_length, Option.some.injEq] at hu
    exact hu ▸ Run.sound_first _ _ _
  | @busy ended r' hs ho =>
    simp only [ensureRun, underWay?, Option.isSome_some, ↓reduceIte, Option.bind_some,
      List.getElem?_concat_length, Option.some.injEq] at hu
    exact hr.sound r (by simp [hu])

/-- In every history that comes about, the facts that a run keeps in several places agree, the
counts of a package add up to the number of its tests, and no event takes one from a counter that
is zero: `enlist` gives the run as the action of an event finds it. -/
theorem runs_sound {mode : Mode} {h : History} (hr : h.Reachable mode) :
    (∀ r ∈ h.runs, r.Sound ∧
      ∀ n p, r.packages.get? n = some p → p.counts.total = p.order.length) ∧
    ∀ now e r, (h.ensureRun e.time now).underWay? = some r → (r.enlist now e).Covered := by
  refine ⟨fun r hm => ⟨hr.sound r hm, fun n p hp => (hr.sound r hm).total hp⟩, ?_⟩
  intro now e r hu
  exact ((hr.sound_ensureRun e.time now hu).enlist now e).covered

/-- A test that runs in one package and passes, and one that fails in another. -/
theorem runs_sound_two_packages :
    let h := pushAll .live
      [(default, ⟨default, .run, "a", "T", "", none⟩), (default, ⟨default, .pass, "a", "T", "", none⟩),
        (default, ⟨default, .fail, "b", "T", "", none⟩)] empty
    h.runs.map Run.counts = [⟨1, 1, 0, 0⟩] ∧ ∀ r ∈ h.runs, r.Sound :=
  ⟨by decide, fun r hm => ((runs_sound (Reachable.start.pushAll _)).1 r hm).1⟩

end History
end TestWatch
