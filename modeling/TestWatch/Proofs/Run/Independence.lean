import TestWatch.Proofs.Run.Listing
import Mathlib.Data.List.Nodup

/-!
# Packages do not interfere

As long as no run ends in between, the state of a package comes from its own events, and it does not
matter how the events of packages that run at the same time are interleaved. Only the order in which
packages are first seen comes from the whole stream.
-/

namespace TestWatch

theorem Table.perm_entries {κ α : Type} [DecidableEq κ] {t u : Table κ α}
    (h : ∀ k, t.get? k = u.get? k) : t.entries.Perm u.entries := by
  rw [List.perm_ext_iff_of_nodup (List.Nodup.of_map _ t.nodup) (List.Nodup.of_map _ u.nodup)]
  rintro ⟨k, a⟩
  rw [← get?_eq_some_iff, ← get?_eq_some_iff, h]

theorem Counts.sum_perm {cs ds : List Counts} (h : cs.Perm ds) : sum cs = sum ds := by
  induction h with
  | nil => rfl
  | cons x _ ih => rw [sum_cons, sum_cons, ih]
  | swap x y _ => exact plus_left_comm y x _
  | trans _ _ ih ih' => exact ih.trans ih'

namespace Run

/-- Both runs hold the same packages and tests, perhaps in another order, and what they count and
print besides is the same. -/
structure HoldsSame (r r' : Run) : Prop where
  packages : r.packages.entries.Perm r'.packages.entries
  tests : r.tests.entries.Perm r'.tests.entries
  counts : r.counts = r'.counts
  running : r.running = r'.running
  loose : r.looseOutput = r'.looseOutput
  lastEvent : r.lastEvent.sameInstant r'.lastEvent = true

theorem holdsSame_of_agreeOn {r r' : Run} (hs : r.Sound) (hs' : r'.Sound)
    (agree : ∀ p, AgreeOn p r r') (lastEvent : r.lastEvent.sameInstant r'.lastEvent = true) :
    r.HoldsSame r' := by
  have packages : r.packages.entries.Perm r'.packages.entries :=
    Table.perm_entries fun p => (agree p).package
  have values : r.packages.values.Perm r'.packages.values := packages.map _
  constructor
  case packages => exact packages
  case tests => exact Table.perm_entries fun k => (agree k.package).tests k.test
  case counts =>
    rw [hs.runCounts, hs'.runCounts]
    exact Counts.sum_perm (values.map _)
  case running =>
    rw [hs.running, hs'.running]
    exact values.countP_eq _
  case loose => exact (agree "").loose rfl
  case lastEvent => exact lastEvent

section LastEvent

variable (r : Run) (mode : Mode) (now : Timestamp) (e : TestEvent)

theorem lastEvent_ensurePackage (n : String) (time : Timestamp) :
    (r.ensurePackage n time now).lastEvent = r.lastEvent := by
  unfold ensurePackage
  split <;> rfl

theorem lastEvent_ensureTest (k : TestKey) (time : Timestamp) :
    (r.ensureTest k time now).lastEvent = r.lastEvent := by
  unfold ensureTest
  split <;> rfl

theorem lastEvent_enlist : (r.enlist now e).lastEvent = r.lastEvent.latest e.time := by
  unfold enlist
  split
  · exact lastEvent_ensurePackage _ _ _ _
  · exact (lastEvent_ensureTest _ _ _ _).trans (lastEvent_ensurePackage _ _ _ _)

theorem lastEvent_push : (r.push mode now e).lastEvent = r.lastEvent.latest e.time := by
  by_cases hp : e.package = ""
  · rw [Run.push, if_pos hp]
    unfold printLoose
    split <;> rfl
  · exact (amends_push mode now e r hp).lastEvent.trans (lastEvent_enlist r now e)

/-- The latest event time after many events is that of one of them, or the one before; none of these
is later. -/
theorem lastEvent_follow (events : List (Timestamp × TestEvent)) :
    ((r.follow mode events).lastEvent = r.lastEvent ∨
      ∃ e ∈ events, (r.follow mode events).lastEvent = e.2.time) ∧
    ¬ (r.follow mode events).lastEvent.before r.lastEvent = true ∧
    ∀ e ∈ events, ¬ (r.follow mode events).lastEvent.before e.2.time = true := by
  induction events generalizing r with
  | nil =>
    have irrefl : ¬ r.lastEvent.before r.lastEvent = true := by simp [Timestamp.before_iff]
    exact ⟨.inl rfl, irrefl, by simp⟩
  | cons e es ih =>
    obtain ⟨taken, first_le, rest_le⟩ := ih (r.push mode e.1 e.2)
    change _ ∧ ¬ ((r.push mode e.1 e.2).follow mode es).lastEvent.before _ = true ∧ _
    have step : (r.push mode e.1 e.2).lastEvent = r.lastEvent.latest e.2.time :=
      lastEvent_push r mode e.1 e.2
    obtain ⟨old_le, new_le⟩ := Timestamp.not_latest_before r.lastEvent e.2.time
    rw [← step] at old_le new_le
    refine ⟨?_, Timestamp.not_before_trans first_le old_le, ?_⟩
    · rcases taken with taken | ⟨x, hx, taken⟩
      · rcases Timestamp.latest_eq r.lastEvent e.2.time with old | new
        · exact .inl (taken.trans (step.trans old))
        · exact .inr ⟨e, by simp, taken.trans (step.trans new)⟩
      · exact .inr ⟨x, by simp [hx], taken⟩
    · intro x hx
      rcases List.mem_cons.1 hx with rfl | hx
      · exact Timestamp.not_before_trans first_le new_le
      · exact rest_le x hx

end LastEvent

end Run

namespace History

/-- No run ends before the last of these events. -/
def Unbroken (mode : Mode) (events : List (Timestamp × TestEvent)) : Prop :=
  ∀ n < events.length, ∀ r ∈ (empty.pushAll mode (events.take n)).runs, r.finish = none

instance (mode : Mode) (events : List (Timestamp × TestEvent)) :
    Decidable (Unbroken mode events) :=
  inferInstanceAs (Decidable (∀ n < events.length,
    ∀ r ∈ (empty.pushAll mode (events.take n)).runs, r.finish = none))

theorem pushAll_append (mode : Mode) (xs ys : List (Timestamp × TestEvent)) (h : History) :
    h.pushAll mode (xs ++ ys) = (h.pushAll mode xs).pushAll mode ys :=
  List.foldl_append

/-- The one run of an unbroken stream takes all events that count. -/
theorem Unbroken.runs_cases {mode : Mode} {events : List (Timestamp × TestEvent)}
    (hu : Unbroken mode events) :
    (events.filter fun e => concerns e.2) = [] ∧ (empty.pushAll mode events).runs = [] ∨
      ∃ e es, (events.filter fun e => concerns e.2) = e :: es ∧
        (empty.pushAll mode events).runs = [(Run.first 1 e.2.time e.1).follow mode (e :: es)] := by
  induction events using List.reverseRecOn with
  | nil => exact .inl ⟨rfl, rfl⟩
  | append_singleton es e ih =>
    have shorter : Unbroken mode es := by
      intro n hn r hr
      refine hu n (by simp; omega) r ?_
      rwa [List.take_append_of_le_length (by omega)]
    have open_ : ∀ r ∈ (empty.pushAll mode es).runs, r.finish = none := by
      intro r hr
      refine hu es.length (by simp) r ?_
      rwa [List.take_left]
    have ordered : Ordered (empty.pushAll mode es) := Ordered.pushAll (.idle (by simp)) es
    have ih := ih shorter
    have step : empty.pushAll mode (es ++ [e]) = (empty.pushAll mode es).push mode e.1 e.2 :=
      pushAll_append mode es [e] empty
    rw [step, List.filter_append]
    generalize empty.pushAll mode es = h at *
    cases he : concerns e.2 with
    | false =>
      have uncounted : [e].filter (fun e => concerns e.2) = [] := by simp [he]
      rwa [push_of_not_concerns h he, uncounted, List.append_nil]
    | true =>
      have counted : [e].filter (fun e => concerns e.2) = [e] := by simp [he]
      rw [counted]
      -- A run that ended would have done so before the last event.
      cases ordered with
      | @idle ended hs =>
        have none_yet : ended = [] := by
          refine List.eq_nil_iff_forall_not_mem.2 fun r hr => ?_
          simpa [open_ r hr] using hs r hr
        subst none_yet
        rcases ih with ⟨nothing, -⟩ | ⟨x, xs, -, one⟩
        · rw [push_idle he, nothing]
          exact .inr ⟨e, [], rfl, rfl⟩
        · cases one
      | @busy ended r hs hr =>
        have no_other : ended = [] := by
          refine List.eq_nil_iff_forall_not_mem.2 fun x hx => ?_
          simpa [open_ x (by simp [hx])] using hs x hx
        subst no_other
        rcases ih with ⟨-, none_yet⟩ | ⟨x, xs, before, one⟩
        · cases none_yet
        · have this_run : r = (Run.first 1 x.2.time x.1).follow mode (x :: xs) := by
            simpa using one
          rw [push_busy he, before, this_run]
          refine .inr ⟨x, xs ++ [e], rfl, ?_⟩
          simp [withLatest, Run.follow]

/-- The events that name a package; those without one have the empty name. -/
def named (p : String) (events : List (Timestamp × TestEvent)) : List (Timestamp × TestEvent) :=
  events.filter fun e => e.2.package == p

def alone (p : String) (events : List (Timestamp × TestEvent)) : Run :=
  (Run.first 1 default default).follow .live ((named p events).filter fun e => concerns e.2)

section Unbroken

variable {mode mode' : Mode} {xs ys : List (Timestamp × TestEvent)}

/-- The one run of an unbroken stream knows of a package what its own events tell. -/
theorem Unbroken.agreeOn_alone (hu : Unbroken mode xs) (p : String) {r : Run}
    (hr : r ∈ (empty.pushAll mode xs).runs) : r.AgreeOn p (alone p xs) := by
  rcases hu.runs_cases with ⟨-, runs⟩ | ⟨e, es, counted, runs⟩
  · simp [runs] at hr
  · have this_run : r = (Run.first 1 e.2.time e.1).follow mode (e :: es) := by
      simpa [runs] using hr
    have start : (Run.first 1 e.2.time e.1).AgreeOn p (Run.first 1 default default) :=
      .of_eq rfl rfl rfl
    have swap : (named p xs).filter (fun e => concerns e.2) =
        (e :: es).filter fun e => e.2.package == p := by
      rw [named, List.filter_comm, counted]
    rw [this_run, alone, swap]
    exact start.follow mode .live _

theorem Unbroken.known_eq (hu : Unbroken mode xs) (p : String) :
    (empty.pushAll mode xs).runs.head?.bind (·.package? p) = (alone p xs).package? p ∧
      ∀ t, (empty.pushAll mode xs).runs.head?.bind (·.test? p t) = (alone p xs).test? p t := by
  have agree (r : Run) (hr : r ∈ (empty.pushAll mode xs).runs) := hu.agreeOn_alone p hr
  rcases hu.runs_cases with ⟨nothing, runs⟩ | ⟨e, es, -, runs⟩
  · have unknown : alone p xs = Run.first 1 default default := by
      rw [alone, named, List.filter_comm, nothing]
      rfl
    rw [runs, unknown]
    exact ⟨rfl, fun _ => rfl⟩
  · rw [runs] at agree ⊢
    exact ⟨(agree _ (by simp)).package, (agree _ (by simp)).tests⟩

theorem perm_of_named (h : ∀ p, named p xs = named p ys) : xs.Perm ys := by
  rw [List.perm_iff_count]
  intro e
  have same := congrArg (List.count e) (h e.2.package)
  rwa [named, named, List.count_filter (by simp), List.count_filter (by simp)] at same

/-- The latest event time is that of one of the events that count, and none of them is later. -/
theorem Unbroken.lastEvent_mem (hu : Unbroken mode xs) {r : Run}
    (hr : r ∈ (empty.pushAll mode xs).runs) :
    (∃ e ∈ xs.filter fun e => concerns e.2, r.lastEvent = e.2.time) ∧
      ∀ e ∈ xs.filter fun e => concerns e.2, ¬ r.lastEvent.before e.2.time = true := by
  rcases hu.runs_cases with ⟨-, runs⟩ | ⟨e, es, counted, runs⟩
  · simp [runs] at hr
  · have this_run : r = (Run.first 1 e.2.time e.1).follow mode (e :: es) := by
      simpa [runs] using hr
    obtain ⟨taken, -, latest⟩ := Run.lastEvent_follow (Run.first 1 e.2.time e.1) mode (e :: es)
    rw [this_run, counted]
    refine ⟨?_, latest⟩
    rcases taken with taken | taken
    · exact ⟨e, by simp, taken⟩
    · exact taken

theorem Unbroken.sameInstant_lastEvent (hx : Unbroken mode xs) (hy : Unbroken mode' ys)
    (perm : xs.Perm ys) {r r' : Run} (hr : r ∈ (empty.pushAll mode xs).runs)
    (hr' : r' ∈ (empty.pushAll mode' ys).runs) :
    r.lastEvent.sameInstant r'.lastEvent = true := by
  have counted := perm.filter fun e => concerns e.2
  obtain ⟨⟨e, he, time⟩, latest⟩ := hx.lastEvent_mem hr
  obtain ⟨⟨e', he', time'⟩, latest'⟩ := hy.lastEvent_mem hr'
  rw [Timestamp.sameInstant_iff]
  constructor
  · rw [time']
    exact latest e' (counted.mem_iff.2 he')
  · rw [time]
    exact latest' e (counted.mem_iff.1 he)

/-- Packages do not interfere. Take two streams of events, in any modes, of which none ends a run
before its last event. What the first run knows of a package and of its tests is the same in both if
the events of that package are. If the events of every package are the same, and those without a
package, both streams make no run, or each makes one that holds the same as the other. -/
theorem packages_independent (hx : Unbroken mode xs) (hy : Unbroken mode' ys) :
    (∀ p, named p xs = named p ys →
      (empty.pushAll mode xs).runs.head?.bind (·.package? p) =
        (empty.pushAll mode' ys).runs.head?.bind (·.package? p) ∧
      ∀ t, (empty.pushAll mode xs).runs.head?.bind (·.test? p t) =
        (empty.pushAll mode' ys).runs.head?.bind (·.test? p t)) ∧
    ((∀ p, named p xs = named p ys) →
      (empty.pushAll mode xs).runs = [] ∧ (empty.pushAll mode' ys).runs = [] ∨
      ∃ r r', (empty.pushAll mode xs).runs = [r] ∧ (empty.pushAll mode' ys).runs = [r'] ∧
        r.HoldsSame r') := by
  have alone_eq (p : String) (h : named p xs = named p ys) : alone p xs = alone p ys := by
    rw [alone, h, alone]
  constructor
  · intro p h
    obtain ⟨package, tests⟩ := hx.known_eq p
    obtain ⟨package', tests'⟩ := hy.known_eq p
    rw [package, package', alone_eq p h]
    exact ⟨rfl, fun t => by rw [tests, tests', alone_eq p h]⟩
  · intro h
    have perm := perm_of_named h
    have counted := perm.filter fun e => concerns e.2
    have both (r r' : Run) (hr : r ∈ (empty.pushAll mode xs).runs)
        (hr' : r' ∈ (empty.pushAll mode' ys).runs) : r.HoldsSame r' := by
      refine Run.holdsSame_of_agreeOn ?_ ?_ (fun p => ?_)
        (hx.sameInstant_lastEvent hy perm hr hr')
      · exact (Reachable.start.pushAll xs).sound r hr
      · exact (Reachable.start.pushAll ys).sound r' hr'
      · have agree := hx.agreeOn_alone p hr
        rw [alone_eq p (h p)] at agree
        exact agree.trans (hy.agreeOn_alone p hr').symm
    rcases hx.runs_cases with ⟨nothing, runs⟩ | ⟨e, es, some_event, runs⟩
    · rcases hy.runs_cases with ⟨-, runs'⟩ | ⟨e', es', some_event', -⟩
      · exact .inl ⟨runs, runs'⟩
      · simp [nothing, some_event'] at counted
    · rcases hy.runs_cases with ⟨nothing', -⟩ | ⟨e', es', -, runs'⟩
      · simp [nothing', some_event] at counted
      · exact .inr ⟨_, _, runs, runs', both _ _ (by simp [runs]) (by simp [runs'])⟩

/-- Two packages with a test of one name each, one after the other or in turns. -/
theorem packages_independent_two_packages :
    let run (n : String) : Timestamp × TestEvent := (default, ⟨default, .run, n, "T", "", none⟩)
    let fail (n : String) : Timestamp × TestEvent := (default, ⟨default, .fail, n, "T", "", none⟩)
    let pass (n : String) : Timestamp × TestEvent := (default, ⟨default, .pass, n, "", "", none⟩)
    let xs := [run "a", run "b", fail "a", fail "b", pass "b", pass "a"]
    let ys := [run "b", fail "b", run "a", pass "b", fail "a", pass "a"]
    Unbroken .live xs ∧ Unbroken (.replay .zero) ys ∧
      (empty.pushAll .live xs).runs.head?.bind (·.test? "a" "T") =
        (empty.pushAll (.replay .zero) ys).runs.head?.bind (·.test? "a" "T") := by
  intro run fail pass xs ys
  have hx : Unbroken .live xs := by decide
  have hy : Unbroken (.replay .zero) ys := by decide
  have same := (packages_independent hx hy).1 "a" (by decide)
  exact ⟨hx, hy, same.2 "T"⟩

end Unbroken

end History
end TestWatch
