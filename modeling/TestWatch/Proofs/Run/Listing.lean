import TestWatch.Proofs.Run.Locality
import Mathlib.Data.List.Induction

/-!
# What an event adds to a run

A package and a test that a run does not know yet go to the end of its lists. Besides that an event
only amends what is listed. So packages, and the tests of each package, stand in the order in which
events first name them.
-/

namespace TestWatch

/-- A name goes to the end of a list, unless it stands there already. -/
def appendNew (names : List String) (n : String) : List String :=
  if n ∈ names then names else names ++ [n]

/-- Names in the order in which they first occur; an empty one names nothing. -/
def firstSeen (names : List String) : List String := (names.filter fun n => n != "").eraseDups

theorem eraseDups_concat (names : List String) (n : String) :
    (names ++ [n]).eraseDups = appendNew names.eraseDups n := by
  rw [List.eraseDups_append, appendNew]
  by_cases h : n ∈ names
  · have nothing : [n].removeAll names = [] := by simp [List.removeAll, h]
    rw [nothing, if_pos (List.mem_eraseDups.2 h)]
    exact List.append_nil _
  · have new : [n].removeAll names = [n] := by simp [List.removeAll, h]
    rw [new, if_neg fun hm => h (List.mem_eraseDups.1 hm)]
    rfl

theorem firstSeen_concat (names : List String) (n : String) :
    firstSeen (names ++ [n]) =
      if n = "" then firstSeen names else appendNew (firstSeen names) n := by
  rw [firstSeen, List.filter_append]
  by_cases hn : n = ""
  · simp [hn, firstSeen]
  · have named : [n].filter (fun n => n != "") = [n] := by simp [hn]
    rw [named, eraseDups_concat, if_neg hn]
    rfl

theorem ne_empty_of_mem_firstSeen {names : List String} {n : String} (h : n ∈ firstSeen names) :
    n ≠ "" := by
  rw [firstSeen, List.mem_eraseDups, List.mem_filter] at h
  simpa using h.2

theorem firstSeen_eq_nil_iff {names : List String} :
    firstSeen names = [] ↔ ∀ n ∈ names, n = "" := by
  rw [List.eq_nil_iff_forall_not_mem]
  simp only [firstSeen, List.mem_eraseDups, List.mem_filter, not_and]
  simp

namespace Run

/-- The names of the tests of a package, in their order. -/
def listed (r : Run) (n : String) : List String := ((r.packages.get? n).map Package.order).getD []

/-- What an event does to a run that lists its package and its test. -/
inductive Amends (mode : Mode) (now : Timestamp) (e : TestEvent) (r : Run) : Run → Prop
  | refl : Amends mode now e r r
  | package {s : Run} {f : Package → Package} : Amends mode now e r s →
      (∀ p, (f p).order = p.order) → Amends mode now e r (s.modify e.package f)
  | test {s : Run} {f : Test → Test} : Amends mode now e r s →
      Amends mode now e r (s.modifyTest e.key f)
  | count {s : Run} (counts : Counts) (running : Nat) : Amends mode now e r s →
      Amends mode now e r { s with counts := counts, running := running }
  | conclude {s : Run} : Amends mode now e r s → Amends mode now e r (s.conclude mode now)

section Amends

variable (mode : Mode) (now : Timestamp) (e : TestEvent) (r : Run)

theorem amends_pushOutcome (s : Status) : Amends mode now e r (r.pushOutcome mode now e s) := by
  cases hf : r.finishPackage? e.package s e.elapsedTime with
  | none =>
    rw [pushOutcome, hf]
    exact .refl
  | some r' =>
    have finished : Amends mode now e r r' := by
      unfold finishPackage? at hf
      split at hf
      · split at hf
        · cases hf
        · obtain rfl := Option.some.inj hf
          exact .count _ _ (.package .refl fun _ => rfl)
      · cases hf
    rw [pushOutcome, hf]
    simp only [settle]
    split
    · exact finished
    · exact .conclude finished

theorem amends_applyToPackage : Amends mode now e r (r.applyToPackage mode now e) := by
  unfold applyToPackage
  cases e.action
  case output =>
    refine .package .refl fun p => ?_
    unfold Package.print
    split <;> rfl
  case pass => exact amends_pushOutcome mode now e r .passed
  case fail => exact amends_pushOutcome mode now e r .failed
  case skip => exact amends_pushOutcome mode now e r .skipped
  all_goals exact .refl

theorem amends_applyToTest : Amends mode now e r (r.applyToTest e) := by
  have outcome (s : Status) : Amends mode now e r (r.finishTest e.key s e.elapsedTime) := by
    unfold finishTest
    split
    · split
      · exact .refl
      · exact .count _ _ (.package (.test .refl) fun _ => rfl)
    · exact .refl
  unfold applyToTest
  cases e.action
  case run => exact .test .refl
  case resume => exact .test .refl
  case pause => exact .test .refl
  case output => exact .test .refl
  case pass => exact outcome .passed
  case fail => exact outcome .failed
  case skip => exact outcome .skipped
  all_goals exact .refl

theorem amends_push (hp : e.package ≠ "") :
    Amends mode now e (r.enlist now e) (r.push mode now e) := by
  rw [Run.push, if_neg hp]
  split
  · exact amends_applyToPackage mode now e _
  · exact amends_applyToTest mode now e _

end Amends

namespace Amends

variable {mode : Mode} {now : Timestamp} {e : TestEvent} {r s : Run}

theorem lastEvent (h : Amends mode now e r s) : s.lastEvent = r.lastEvent := by
  induction h with
  | refl => rfl
  | package _ _ ih => exact ih
  | test _ ih => exact ih
  | count _ _ _ ih => exact ih
  | conclude _ ih => exact ih

theorem keys (h : Amends mode now e r s) : s.packages.keys = r.packages.keys := by
  induction h with
  | refl => rfl
  | package _ _ ih => exact (Table.keys_modify _ _ _).trans ih
  | test _ ih => exact ih
  | count _ _ _ ih => exact ih
  | conclude _ ih => exact ih

theorem listed (h : Amends mode now e r s) (n : String) : s.listed n = r.listed n := by
  induction h with
  | refl => rfl
  | @package s f _ same ih =>
    rw [← ih]
    unfold Run.listed modify
    rw [Table.get?_modify]
    split
    · cases s.packages.get? n with
      | none => rfl
      | some p => exact same p
    · rfl
  | test _ ih => exact ih
  | count _ _ _ ih => exact ih
  | conclude _ ih => exact ih

end Amends

section Push

variable (r : Run) (mode : Mode) (now : Timestamp) (e : TestEvent)

theorem keys_ensurePackage (n : String) (time : Timestamp) :
    (r.ensurePackage n time now).packages.keys = appendNew r.packages.keys n := by
  unfold ensurePackage appendNew
  by_cases h : n ∈ r.packages.keys
  · rw [if_pos ((Table.mem_keys _ n).1 h), if_pos h]
  · rw [if_neg fun hs => h ((Table.mem_keys _ n).2 hs), if_neg h]
    exact Table.keys_insert_of_notMem _ h

theorem listed_ensurePackage (n m : String) (time : Timestamp) :
    (r.ensurePackage n time now).listed m = r.listed m := by
  unfold ensurePackage
  by_cases h : (r.packages.get? n).isSome
  · rw [if_pos h]
  · have absent : r.packages.get? n = none := by simpa using h
    rw [if_neg h]
    simp only [listed, Table.get?_insert]
    split
    · simp [*, Package.first]
    · rfl

theorem keys_ensureTest (k : TestKey) (time : Timestamp) :
    (r.ensureTest k time now).packages.keys = r.packages.keys := by
  unfold ensureTest
  split
  · rfl
  · exact Table.keys_modify _ _ _

theorem keys_push : (r.push mode now e).packages.keys =
    if e.package = "" then r.packages.keys else appendNew r.packages.keys e.package := by
  by_cases hp : e.package = ""
  · rw [Run.push, if_pos hp, if_pos hp]
    unfold printLoose
    split <;> rfl
  · rw [if_neg hp, (amends_push mode now e r hp).keys]
    have observed := (r.observe e.time).keys_ensurePackage now e.package e.time
    unfold enlist
    split
    · exact observed
    · exact (keys_ensureTest _ _ _ _).trans observed

variable {r}

theorem Sound.stored_iff (hs : r.Sound) (k : TestKey) :
    (r.tests.get? k).isSome ↔ k.test ∈ r.listed k.package := by
  rw [hs.stored, listed]
  cases r.packages.get? k.package <;> simp

theorem Sound.listed_ensureTest (hs : r.Sound) {k : TestKey}
    (known : (r.packages.get? k.package).isSome) (time now : Timestamp) :
    (r.ensureTest k time now).listed k.package = appendNew (r.listed k.package) k.test := by
  unfold Run.ensureTest appendNew
  by_cases h : k.test ∈ r.listed k.package
  · rw [if_pos ((hs.stored_iff k).2 h), if_pos h]
  · rw [if_neg fun ht => h ((hs.stored_iff k).1 ht), if_neg h]
    obtain ⟨p, hp⟩ := Option.isSome_iff_exists.1 known
    simp [listed, Run.modify, Table.get?_modify, hp, Package.enter]

theorem Sound.listed_push (hs : r.Sound) (n : String) (hn : n ≠ "") :
    (r.push mode now e).listed n =
      if e.package = n ∧ e.test ≠ "" then appendNew (r.listed n) e.test else r.listed n := by
  by_cases hp : e.package = n
  · subst hp
    have observed : (r.observe e.time).Sound := hs.of_eq rfl rfl rfl rfl
    have ensured : ((r.observe e.time).ensurePackage e.package e.time now).listed e.package =
        r.listed e.package := listed_ensurePackage _ _ _ _ _
    rw [(amends_push mode now e r hn).listed, Run.enlist]
    by_cases ht : e.test = ""
    · simpa [ht] using ensured
    · have known := packages_ensurePackage (r.observe e.time) e.package e.time now
      have step := (observed.ensurePackage e.package e.time now).listed_ensureTest (k := e.key)
        known e.time now
      simp only [ht, ↓reduceIte, ne_eq, not_false_eq_true, and_self]
      exact step.trans (congrArg (appendNew · e.test) ensured)
  · have others := (local_push mode now e).frame n r (Ne.symm hp)
    rw [if_neg fun h => hp h.1, listed, others.package]
    rfl

end Push

section Follow

variable (id : Nat) (time now : Timestamp) (mode : Mode) (events : List (Timestamp × TestEvent))

theorem Sound.follow {r : Run} (hs : r.Sound) (mode : Mode)
    (events : List (Timestamp × TestEvent)) : (r.follow mode events).Sound := by
  induction events generalizing r with
  | nil => exact hs
  | cons e es ih => exact ih (hs.push mode e.1 e.2)

theorem follow_concat (r : Run) (e : Timestamp × TestEvent) :
    r.follow mode (events ++ [e]) = (r.follow mode events).push mode e.1 e.2 := by
  simp [Run.follow]

/-- Packages stand in the order in which events first name them. -/
theorem keys_follow_first : ((first id time now).follow mode events).packages.keys =
    firstSeen (events.map fun e => e.2.package) := by
  induction events using List.reverseRecOn with
  | nil => rfl
  | append_singleton es e ih =>
    rw [follow_concat, keys_push, ih, List.map_append, List.map_singleton, firstSeen_concat]

/-- The tests of a package stand in the order in which events first name them. -/
theorem listed_follow_first {n : String} (hn : n ≠ "") :
    ((first id time now).follow mode events).listed n =
      firstSeen ((events.filter fun e => e.2.package == n).map fun e => e.2.test) := by
  induction events using List.reverseRecOn with
  | nil => rfl
  | append_singleton es e ih =>
    have sound := (sound_first id time now).follow mode es
    rw [follow_concat, sound.listed_push mode e.1 e.2 n hn, ih, List.filter_append, List.map_append]
    by_cases hp : e.2.package = n
    · have own : [e].filter (fun e => e.2.package == n) = [e] := by simp [hp]
      rw [own, List.map_singleton, firstSeen_concat]
      by_cases ht : e.2.test = ""
      · simp [ht]
      · simp [hp, ht]
    · simp [hp]

end Follow

/-- These events made the run, which may have been closed after them. -/
def MadeBy (mode : Mode) (events : List (Timestamp × TestEvent)) (r : Run) : Prop :=
  ∃ id time now, r = (first id time now).follow mode events ∨
    ∃ stop, r = ((first id time now).follow mode events).close mode stop

theorem listed_close (r : Run) (mode : Mode) (now : Timestamp) (n : String) :
    (r.close mode now).listed n = r.listed n := by
  have kept (p : Package) : (r.cutOff mode (r.endTime mode now) p).order = p.order := by
    unfold cutOff
    split <;> rfl
  have get : (r.close mode now).packages.get? n =
      (r.packages.get? n).map (r.cutOff mode (r.endTime mode now)) := Table.get?_mapValues _ _ _
  rw [listed, listed, get]
  cases r.packages.get? n with
  | none => rfl
  | some p => exact kept p

/-- A run shows its packages in the order in which its events first name them, and so the tests of
each package. -/
theorem MadeBy.names {mode : Mode} {events : List (Timestamp × TestEvent)} {r : Run}
    (h : r.MadeBy mode events) (hs : r.Sound) :
    r.packages.values.map Package.name = firstSeen (events.map fun e => e.2.package) ∧
      ∀ p ∈ r.packages.values, (r.testsIn p).map Test.name =
        firstSeen ((events.filter fun e => e.2.package == p.name).map fun e => e.2.test) := by
  obtain ⟨id, time, now, made⟩ := h
  have same : r.packages.keys = ((first id time now).follow mode events).packages.keys ∧
      ∀ n, r.listed n = ((first id time now).follow mode events).listed n := by
    rcases made with rfl | ⟨stop, rfl⟩
    · exact ⟨rfl, fun _ => rfl⟩
    · exact ⟨Table.keys_mapValues _ _, listed_close _ mode stop⟩
  have keys := same.1.trans (keys_follow_first id time now mode events)
  refine ⟨hs.map_name.trans keys, ?_⟩
  intro p hp
  obtain ⟨n, hn⟩ := (Table.mem_values _ p).1 hp
  obtain rfl := hs.packageName n p hn
  have named : p.name ≠ "" := by
    have known := (Table.mem_keys _ p.name).2 (Option.isSome_of_eq_some hn)
    rw [keys] at known
    exact ne_empty_of_mem_firstSeen known
  have order : r.listed p.name = p.order := congrArg (fun q => (q.map Package.order).getD []) hn
  rw [hs.map_name_testsIn hp, ← order, same.2,
    listed_follow_first id time now mode events named]

end Run

/-- Every run is what some events made of it. -/
theorem History.Reachable.exists_madeBy {mode : Mode} {h : History} (hr : h.Reachable mode) :
    ∀ r ∈ h.runs, ∃ events, r.MadeBy mode events := by
  refine hr.forall_runs ?_ ?_ ?_
  · exact fun id time now => ⟨[], id, time, now, .inl rfl⟩
  · rintro now e r open_ - ⟨events, id, time, start, rfl | ⟨stop, rfl⟩⟩
    · have longer := Run.follow_concat mode events (Run.first id time start) (now, e)
      exact ⟨events ++ [(now, e)], id, time, start, .inl longer.symm⟩
    · cases open_
  · rintro now r open_ ⟨events, id, time, start, rfl | ⟨stop, rfl⟩⟩
    · exact ⟨events, id, time, start, .inr ⟨now, rfl⟩⟩
    · cases open_

end TestWatch
