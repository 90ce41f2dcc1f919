import TestWatch.Proofs.Run.Entries
import TestWatch.Proofs.Run.Independence
import Mathlib.Logic.Relation

/-!
# Runs only grow

An event adds to the run under way and takes nothing back: names and lines go to the end of their
lists, start times stay, and an outcome is final. Closing the run changes no more than that, and a
run that has ended changes in nothing. `Extends` says it of a test, a package, a run and a history;
it is transitive, so it holds between any history and what becomes of it.
-/

namespace TestWatch

/-- The second is the first at a later time. -/
structure Test.Extends (t t' : Test) : Prop where
  package : t'.package = t.package
  name : t'.name = t.name
  start : t'.start = t.start
  wallStart : t'.wallStart = t.wallStart
  output : t.output <+: t'.output
  outcome : t.status.isTerminal → t'.status = t.status ∧ t'.elapsed = t.elapsed

/-- The second is the first at a later time. -/
structure Package.Extends (p p' : Package) : Prop where
  name : p'.name = p.name
  start : p'.start = p.start
  wallStart : p'.wallStart = p.wallStart
  order : p.order <+: p'.order
  outcome : p.status.isTerminal → p'.status = p.status ∧ p'.elapsed = p.elapsed

namespace Test

theorem Extends.refl (t : Test) : t.Extends t :=
  ⟨rfl, rfl, rfl, rfl, List.prefix_rfl, fun _ => ⟨rfl, rfl⟩⟩

theorem Extends.trans {t u v : Test} (h : t.Extends u) (h' : u.Extends v) : t.Extends v where
  package := h'.package.trans h.package
  name := h'.name.trans h.name
  start := h'.start.trans h.start
  wallStart := h'.wallStart.trans h.wallStart
  output := h.output.trans h'.output
  outcome := by
    intro terminal
    obtain ⟨status, elapsed⟩ := h.outcome terminal
    obtain ⟨status', elapsed'⟩ := h'.outcome (status ▸ terminal)
    exact ⟨status'.trans status, elapsed'.trans elapsed⟩

theorem extends_setStatus (s : Status) (t : Test) : t.Extends (t.setStatus s) := by
  unfold setStatus
  split
  · exact .refl t
  · exact { Extends.refl t with outcome := fun terminal => absurd terminal ‹_› }

theorem extends_print (e : TestEvent) (t : Test) : t.Extends (t.print e) := by
  unfold print
  split
  · exact { Extends.refl t with }
  · split
    · exact .refl t
    · exact { Extends.refl t with output := List.prefix_append _ _ }

theorem extends_complete {t : Test} (open_ : t.status.isTerminal = false) (s : Status)
    (elapsed : Duration) : t.Extends (t.complete s elapsed) :=
  { Extends.refl t with outcome := fun terminal => by simp [open_] at terminal }

end Test

namespace Package

theorem Extends.refl (p : Package) : p.Extends p :=
  ⟨rfl, rfl, rfl, List.prefix_rfl, fun _ => ⟨rfl, rfl⟩⟩

theorem Extends.trans {p q s : Package} (h : p.Extends q) (h' : q.Extends s) : p.Extends s where
  name := h'.name.trans h.name
  start := h'.start.trans h.start
  wallStart := h'.wallStart.trans h.wallStart
  order := h.order.trans h'.order
  outcome := by
    intro terminal
    obtain ⟨status, elapsed⟩ := h.outcome terminal
    obtain ⟨status', elapsed'⟩ := h'.outcome (status ▸ terminal)
    exact ⟨status'.trans status, elapsed'.trans elapsed⟩

theorem extends_enter (name : String) (p : Package) : p.Extends (p.enter name) :=
  { Extends.refl p with order := List.prefix_append _ _ }

theorem extends_record (s : Status) (p : Package) : p.Extends (p.record s) :=
  { Extends.refl p with }

theorem extends_print (e : TestEvent) (p : Package) : p.Extends (p.print e) := by
  unfold print
  split
  · exact .refl p
  · exact { Extends.refl p with }

theorem extends_complete {p : Package} (open_ : p.status.isTerminal = false) (s : Status)
    (elapsed : Duration) : p.Extends (p.complete s elapsed) :=
  { Extends.refl p with outcome := fun terminal => by simp [open_] at terminal }

end Package

namespace Run

/-- The second is the first at a later time. Packages and tests stay under their keys. -/
structure Extends (r r' : Run) : Prop where
  id : r'.id = r.id
  start : r'.start = r.start
  wallStart : r'.wallStart = r.wallStart
  lastEvent : ¬ r'.lastEvent.before r.lastEvent = true
  loose : r.looseOutput <+: r'.looseOutput
  keys : r.packages.keys <+: r'.packages.keys
  package : ∀ n p, r.packages.get? n = some p →
    ∃ p', r'.packages.get? n = some p' ∧ p.Extends p'
  test : ∀ k t, r.tests.get? k = some t → ∃ t', r'.tests.get? k = some t' ∧ t.Extends t'

theorem Extends.refl (r : Run) : r.Extends r where
  id := rfl
  start := rfl
  wallStart := rfl
  lastEvent := by simp [Timestamp.before_iff]
  loose := List.prefix_rfl
  keys := List.prefix_rfl
  package := fun _ p hp => ⟨p, hp, .refl p⟩
  test := fun _ t ht => ⟨t, ht, .refl t⟩

theorem Extends.trans {r s u : Run} (h : r.Extends s) (h' : s.Extends u) : r.Extends u where
  id := h'.id.trans h.id
  start := h'.start.trans h.start
  wallStart := h'.wallStart.trans h.wallStart
  lastEvent := Timestamp.not_before_trans h'.lastEvent h.lastEvent
  loose := h.loose.trans h'.loose
  keys := h.keys.trans h'.keys
  package := by
    intro n p hp
    obtain ⟨q, hq, first⟩ := h.package n p hp
    obtain ⟨s, hs, second⟩ := h'.package n q hq
    exact ⟨s, hs, first.trans second⟩
  test := by
    intro k t ht
    obtain ⟨u, hu, first⟩ := h.test k t ht
    obtain ⟨v, hv, second⟩ := h'.test k u hu
    exact ⟨v, hv, first.trans second⟩

section Push

variable (r : Run) (mode : Mode) (now : Timestamp) (e : TestEvent)

theorem extends_modify (n : String) {f : Package → Package}
    (hf : ∀ p, r.packages.get? n = some p → p.Extends (f p)) : r.Extends (r.modify n f) where
  __ := Extends.refl r
  keys := by
    have same : (r.modify n f).packages.keys = r.packages.keys := Table.keys_modify _ _ _
    exact same ▸ List.prefix_rfl
  package := by
    intro m p hp
    change ∃ p', (r.packages.modify n f).get? m = some p' ∧ p.Extends p'
    rw [Table.get?_modify, hp]
    by_cases hm : m = n
    · subst hm
      exact ⟨f p, by simp, hf p hp⟩
    · exact ⟨p, by simp [hm], .refl p⟩

theorem extends_modifyTest (k : TestKey) {f : Test → Test}
    (hf : ∀ t, r.tests.get? k = some t → t.Extends (f t)) : r.Extends (r.modifyTest k f) where
  __ := Extends.refl r
  test := by
    intro j t ht
    change ∃ t', (r.tests.modify k f).get? j = some t' ∧ t.Extends t'
    rw [Table.get?_modify, ht]
    by_cases hj : j = k
    · subst hj
      exact ⟨f t, by simp, hf t ht⟩
    · exact ⟨t, by simp [hj], .refl t⟩

theorem extends_observe (time : Timestamp) : r.Extends (r.observe time) :=
  { Extends.refl r with lastEvent := (Timestamp.not_latest_before r.lastEvent time).1 }

theorem extends_ensurePackage (n : String) (time : Timestamp) :
    r.Extends (r.ensurePackage n time now) := by
  unfold ensurePackage
  by_cases known : (r.packages.get? n).isSome
  · rw [if_pos known]
    exact .refl r
  · have absent : r.packages.get? n = none := by simpa using known
    have fresh : n ∉ r.packages.keys := (Table.get?_eq_none_iff _ n).1 absent
    rw [if_neg known]
    refine { Extends.refl r with keys := ?_, package := ?_ }
    · change r.packages.keys <+: (r.packages.insert n _).keys
      rw [Table.keys_insert_of_notMem _ fresh]
      exact List.prefix_append _ _
    · intro m p hp
      have other : m ≠ n := by
        rintro rfl
        simp [absent] at hp
      exact ⟨p, by simp [Table.get?_insert, other, hp], .refl p⟩

theorem extends_ensureTest (k : TestKey) (time : Timestamp) :
    r.Extends (r.ensureTest k time now) := by
  unfold ensureTest
  by_cases known : (r.tests.get? k).isSome
  · rw [if_pos known]
    exact .refl r
  · have absent : r.tests.get? k = none := by simpa using known
    have entered := r.extends_modify k.package fun p _ => Package.extends_enter k.test p
    rw [if_neg known]
    refine { entered with test := ?_ }
    intro j t ht
    have other : j ≠ k := by
      rintro rfl
      simp [absent] at ht
    exact ⟨t, by simp [Table.get?_insert, other, ht], .refl t⟩

theorem extends_enlist : r.Extends (r.enlist now e) := by
  have listed := (r.extends_observe e.time).trans
    ((r.observe e.time).extends_ensurePackage now e.package e.time)
  unfold enlist
  split
  · exact listed
  · exact listed.trans (extends_ensureTest _ now e.key e.time)

theorem extends_printLoose : r.Extends (r.printLoose e) := by
  unfold printLoose
  split
  · exact .refl r
  · exact { Extends.refl r with loose := List.prefix_append _ _ }

/-- The outcome of a test changes it only if it had none. -/
theorem extends_finishTest (k : TestKey) (s : Status) (elapsed : Duration) :
    r.Extends (r.finishTest k s elapsed) := by
  unfold finishTest
  cases ht : r.tests.get? k with
  | none => exact .refl r
  | some t =>
    cases terminal : t.status.isTerminal with
    | true => simpa [terminal] using Extends.refl r
    | false =>
      have completed : r.Extends (r.modifyTest k (Test.complete s elapsed)) := by
        apply extends_modifyTest
        intro u hu
        obtain rfl : t = u := Option.some.inj (ht.symm.trans hu)
        exact Test.extends_complete terminal s elapsed
      have recorded := completed.trans
        (extends_modify _ k.package fun p _ => Package.extends_record s p)
      simpa [terminal] using { recorded with }

theorem extends_applyToTest : r.Extends (r.applyToTest e) := by
  have set (s : Status) : r.Extends (r.modifyTest e.key (Test.setStatus s)) :=
    r.extends_modifyTest e.key fun t _ => Test.extends_setStatus s t
  unfold applyToTest
  cases e.action
  case run => exact set .running
  case resume => exact set .running
  case pause => exact set .paused
  case output => exact r.extends_modifyTest e.key fun t _ => Test.extends_print e t
  case pass => exact r.extends_finishTest e.key .passed _
  case fail => exact r.extends_finishTest e.key .failed _
  case skip => exact r.extends_finishTest e.key .skipped _
  all_goals exact .refl r

/-- The outcome of a package changes it only if it had none, and the end of the run changes nothing
that is kept. -/
theorem extends_pushOutcome (s : Status) : r.Extends (r.pushOutcome mode now e s) := by
  unfold pushOutcome finishPackage?
  cases hp : r.packages.get? e.package with
  | none => exact .refl r
  | some p =>
    cases terminal : p.status.isTerminal with
    | true => simpa [terminal] using Extends.refl r
    | false =>
      have completed : r.Extends (r.modify e.package (Package.complete s e.elapsedTime)) := by
        apply extends_modify
        intro q hq
        obtain rfl : p = q := Option.some.inj (hp.symm.trans hq)
        exact Package.extends_complete terminal s e.elapsedTime
      simp only [terminal, Bool.false_eq_true, ↓reduceIte, settle]
      split
      · exact { completed with }
      · exact { completed with }

theorem extends_push : r.Extends (r.push mode now e) := by
  have enlisted := r.extends_enlist now e
  unfold Run.push
  by_cases hp : e.package = ""
  · rw [if_pos hp]
    exact (r.extends_observe e.time).trans (extends_printLoose _ e)
  rw [if_neg hp]
  by_cases ht : e.test = ""
  · rw [if_pos ht]
    refine enlisted.trans ?_
    unfold applyToPackage
    cases e.action
    case output => exact extends_modify _ e.package fun p _ => Package.extends_print e p
    case pass => exact extends_pushOutcome _ mode now e .passed
    case fail => exact extends_pushOutcome _ mode now e .failed
    case skip => exact extends_pushOutcome _ mode now e .skipped
    all_goals exact .refl _
  · rw [if_neg ht]
    exact enlisted.trans (extends_applyToTest _ e)

/-- Closing gives an outcome to the packages that had none. -/
theorem extends_close : r.Extends (r.close mode now) where
  __ := Extends.refl r
  keys := by
    have same : (r.close mode now).packages.keys = r.packages.keys := Table.keys_mapValues _ _
    exact same ▸ List.prefix_rfl
  package := by
    intro n p hp
    refine ⟨r.cutOff mode (r.endTime mode now) p, ?_, ?_⟩
    · change (r.packages.mapValues _).get? n = _
      rw [Table.get?_mapValues, hp]
      rfl
    · unfold cutOff
      split
      · exact Package.extends_complete (by simp [*, Status.isTerminal]) _ _
      · exact .refl p

end Push

/-- Nothing in the run begins after its latest event. -/
structure Timely (r : Run) : Prop where
  run : ¬ r.lastEvent.before r.start = true
  packages : ∀ n p, r.packages.get? n = some p → ¬ r.lastEvent.before p.start = true
  tests : ∀ k t, r.tests.get? k = some t → ¬ r.lastEvent.before t.start = true

theorem timely_first (id : Nat) (time now : Timestamp) : (first id time now).Timely := by
  constructor <;> simp [first, Timestamp.before_iff]

/-- What an event begins has the time of the event, which the latest event time takes in. -/
theorem Timely.push {r : Run} (h : r.Timely) (mode : Mode) (now : Timestamp) (e : TestEvent) :
    (r.push mode now e).Timely := by
  obtain ⟨old, new⟩ := Timestamp.not_latest_before r.lastEvent e.time
  rw [← lastEvent_push r mode now e] at old new
  generalize last : (r.push mode now e).lastEvent = time at old new
  have before : r.Each (fun p => ¬ time.before p.start = true)
      (fun t => ¬ time.before t.start = true) fun _ => True :=
    ⟨fun n p hp => Timestamp.not_before_trans old (h.packages n p hp),
      fun k t ht => Timestamp.not_before_trans old (h.tests k t ht), fun _ _ => trivial⟩
  have keeps : Keeps (fun p => ¬ time.before p.start = true) (fun t => ¬ time.before t.start = true)
      (fun _ => True) now e := by
    constructor
    case firstPackage => exact new
    case enter => exact fun p hp => (Package.extends_enter e.test p).start ▸ hp
    case record => exact fun p s hp => (Package.extends_record s p).start ▸ hp
    case printPackage => exact fun p hp => (Package.extends_print e p).start ▸ hp
    case completePackage => exact fun p s _ hp => hp
    case firstTest => exact new
    case setStatus => exact fun t s ht => (Test.extends_setStatus s t).start ▸ ht
    case printTest => exact fun t ht => (Test.extends_print e t).start ▸ ht
    case completeTest => exact fun t s ht => ht
    case line => trivial
  have after := before.push keeps mode
  have start : (r.push mode now e).start = r.start := (r.extends_push mode now e).start
  refine ⟨?_, last ▸ after.packages, last ▸ after.tests⟩
  rw [start, last]
  exact Timestamp.not_before_trans old h.run

theorem Timely.close {r : Run} (h : r.Timely) (mode : Mode) (now : Timestamp) :
    (r.close mode now).Timely := by
  refine ⟨h.run, ?_, h.tests⟩
  refine Table.forall_get?_mapValues fun n p hp => ?_
  have start : (r.cutOff mode (r.endTime mode now) p).start = p.start := by
    unfold cutOff
    split <;> rfl
  rw [start]
  exact h.packages n p hp

end Run

namespace History

/-- One event, or the end of the stream. -/
inductive Step (mode : Mode) (h : History) : History → Prop
  | push (now : Timestamp) (e : TestEvent) : Step mode h (h.push mode now e)
  | finish (now : Timestamp) : Step mode h (h.finish mode now)

/-- The second is the first at a later time: what had ended is as it was, and every run extends what
it was. -/
structure Extends (h h' : History) : Prop where
  ended : ∀ (i : Nat) r, h.runs[i]? = some r → r.finish.isSome → h'.runs[i]? = some r
  runs : ∀ (i : Nat) r, h.runs[i]? = some r → ∃ r', h'.runs[i]? = some r' ∧ r.Extends r'

theorem Extends.refl (h : History) : h.Extends h :=
  ⟨fun _ _ hr _ => hr, fun _ r hr => ⟨r, hr, .refl r⟩⟩

theorem Extends.trans {h i j : History} (hi : h.Extends i) (hj : i.Extends j) : h.Extends j where
  ended := fun n r hr ended => hj.ended n r (hi.ended n r hr ended) ended
  runs := by
    intro n r hr
    obtain ⟨s, hs, first⟩ := hi.runs n r hr
    obtain ⟨u, hu, second⟩ := hj.runs n s hs
    exact ⟨u, hu, first.trans second⟩

section Steps

variable {mode : Mode} {h h' : History}

theorem Reachable.timely (hr : h.Reachable mode) : ∀ r ∈ h.runs, r.Timely :=
  hr.forall_runs Run.timely_first (fun now e _ _ _ timely => timely.push mode now e)
    fun now _ _ timely => timely.close mode now

theorem Reachable.step (hr : h.Reachable mode) (step : Step mode h h') : h'.Reachable mode := by
  cases step with
  | push now e => exact hr.push now e
  | finish now => exact hr.finish now

/-- What one step does: nothing, or it adds a run, or it extends the run under way. -/
theorem Ordered.step_cases (ho : h.Ordered) (step : Step mode h h') :
    h' = h ∨ (∃ r, h.current = none ∧ h'.runs = h.runs ++ [r]) ∨
      ∃ ended r r', h = ⟨ended ++ [r], some ended.length⟩ ∧ r.finish = none ∧
        h'.runs = ended ++ [r'] ∧ r.Extends r' := by
  cases step with
  | push now e =>
    cases he : concerns e with
    | false => exact .inl (push_of_not_concerns h he)
    | true =>
      cases ho with
      | @idle ended _ =>
        rw [push_idle he]
        exact .inr (.inl ⟨_, rfl, rfl⟩)
      | @busy ended r _ open_ =>
        rw [push_busy he]
        exact .inr (.inr ⟨ended, r, _, rfl, open_, rfl, r.extends_push mode now e⟩)
  | finish now =>
    cases ho with
    | idle _ => exact .inl finish_idle
    | @busy ended r _ open_ =>
      rw [finish_busy]
      exact .inr (.inr ⟨ended, r, _, rfl, open_, rfl, r.extends_close mode now⟩)

/-- A run is the one under way, or a step leaves it as it is. -/
theorem Ordered.getElem?_step (ho : h.Ordered) (step : Step mode h h') {i : Nat} {r : Run}
    (hi : h.runs[i]? = some r) :
    h'.runs[i]? = some r ∨
      h.current = some i ∧ r.finish = none ∧ ∃ r', h'.runs[i]? = some r' ∧ r.Extends r' := by
  rcases ho.step_cases step with rfl | ⟨added, _, runs⟩ | ⟨ended, s, s', rfl, open_, runs, extends_⟩
  · exact .inl hi
  · rw [runs, List.getElem?_append_left (List.getElem?_eq_some_iff.1 hi).1]
    exact .inl hi
  · have bound := (List.getElem?_eq_some_iff.1 hi).1
    rw [List.length_append, List.length_singleton] at bound
    rcases Nat.lt_or_ge i ended.length with earlier | last
    · rw [List.getElem?_append_left earlier] at hi
      rw [runs, List.getElem?_append_left earlier]
      exact .inl hi
    · obtain rfl : i = ended.length := by omega
      obtain rfl : s = r := by simpa using hi
      exact .inr ⟨rfl, open_, s', by simp [runs], extends_⟩

theorem Ordered.extends_step (ho : h.Ordered) (step : Step mode h h') : h.Extends h' where
  ended := by
    intro i r hi ended
    rcases ho.getElem?_step step hi with same | ⟨_, open_, _⟩
    · exact same
    · simp [open_] at ended
  runs := by
    intro i r hi
    rcases ho.getElem?_step step hi with same | ⟨_, _, later⟩
    · exact ⟨r, same, .refl r⟩
    · exact later

/-- Whatever happens later, runs that have ended stay as they are and the others extend what they
were. -/
theorem Reachable.extends_later (hr : h.Reachable mode) {later : History}
    (steps : Relation.ReflTransGen (Step mode) h later) :
    later.Reachable mode ∧ h.Extends later := by
  induction steps with
  | refl => exact ⟨hr, .refl h⟩
  | tail _ step ih =>
    obtain ⟨reached, extends_⟩ := ih
    exact ⟨reached.step step, extends_.trans (reached.ordered.extends_step step)⟩

/-- The history is append-only. An event, or the end of the stream, leaves all runs that have ended
as they are, and all others but the one under way; it adds at most one run. The run under way
extends what it was: its names and lines are prefixes of what they become, start times stay,
outcomes are final, and the time of its latest event does not go back. In every run nothing begins
after the latest event. The same holds between a history and any later one. -/
theorem append_only (hr : h.Reachable mode) (step : Step mode h h') :
    (∀ (i : Nat) r, h.runs[i]? = some r → r.finish.isSome → h'.runs[i]? = some r) ∧
    (∀ (i : Nat) r, h.runs[i]? = some r → h.current ≠ some i → h'.runs[i]? = some r) ∧
    (h.runs.length ≤ h'.runs.length ∧ h'.runs.length ≤ h.runs.length + 1) ∧
    (∀ i, h.current = some i →
      ∃ r r', h.runs[i]? = some r ∧ h'.runs[i]? = some r' ∧ r.Extends r') ∧
    (∀ r' ∈ h'.runs, r'.Timely) ∧
    ∀ later, Relation.ReflTransGen (Step mode) h' later →
      h.Extends later ∧ ∀ r ∈ later.runs, r.Timely := by
  have ordered := hr.ordered
  have first := ordered.extends_step step
  refine ⟨first.ended, ?_, ?_, ?_, (hr.step step).timely, ?_⟩
  · intro i r hi other
    rcases ordered.getElem?_step step hi with same | ⟨current, _⟩
    · exact same
    · exact absurd current other
  · rcases ordered.step_cases step with rfl | ⟨added, _, runs⟩ | ⟨ended, r, r', rfl, _, runs, _⟩
    · exact ⟨Nat.le_refl _, Nat.le_succ _⟩
    · simp [runs]
    · simp [runs]
  · intro i current
    have here : ∃ r, h.runs[i]? = some r := by
      cases ordered with
      | idle _ => cases current
      | @busy ended r _ _ =>
        obtain rfl : ended.length = i := Option.some.inj current
        exact ⟨r, by simp⟩
    obtain ⟨r, hi⟩ := here
    obtain ⟨r', hi', extends_⟩ := first.runs i r hi
    exact ⟨r, r', hi, hi', extends_⟩
  · intro later steps
    obtain ⟨reached, extends_⟩ := (hr.step step).extends_later steps
    exact ⟨first.trans extends_, reached.timely⟩

/-- One run has ended. In the next one a test has failed, and an event from an earlier time lets it
pass. -/
theorem append_only_late_outcome :
    let failed : TestEvent := ⟨⟨5, 0, 0⟩, .fail, "b", "T", "", none⟩
    let late : TestEvent := ⟨⟨2, 0, 0⟩, .pass, "b", "T", "", none⟩
    let h := empty.pushAll .live [(default, ⟨default, .pass, "a", "", "", none⟩), (default, failed)]
    h.runs.map Run.status = [.passed, .running] ∧
      ∃ r r', h.runs[1]? = some r ∧ (h.push .live default late).runs[1]? = some r' ∧
        r.Extends r' := by
  intro failed late h
  have hr : h.Reachable .live := Reachable.start.pushAll _
  obtain ⟨_, _, _, under_way, _⟩ := append_only hr (.push default late)
  exact ⟨by decide, under_way 1 (by decide)⟩

end Steps

end History
end TestWatch
