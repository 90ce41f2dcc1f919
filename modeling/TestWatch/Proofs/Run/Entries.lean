import TestWatch.Run.History

/-!
# What holds of every package and every test

An event changes a run by a few operations on one of its packages and one of its tests. What those
operations keep of a package, of a test and of a loose line is kept of all that a run holds.
-/

namespace TestWatch
namespace Run

/-- All packages have `A`, all tests have `B`, and all loose lines have `C`. -/
structure Each (A : Package → Prop) (B : Test → Prop) (C : String → Prop) (r : Run) : Prop where
  packages : ∀ n p, r.packages.get? n = some p → A p
  tests : ∀ k t, r.tests.get? k = some t → B t
  loose : ∀ l ∈ r.looseOutput, C l

/-- What an event does to a package, a test or the loose lines keeps `A`, `B` and `C`. -/
structure Keeps (A : Package → Prop) (B : Test → Prop) (C : String → Prop) (now : Timestamp)
    (e : TestEvent) : Prop where
  firstPackage : A (.first e.package e.time now)
  enter : ∀ p, A p → A (p.enter e.test)
  record : ∀ p s, A p → A (p.record s)
  printPackage : ∀ p, A p → A (p.print e)
  completePackage : ∀ p s, s ≠ .interrupted → A p → A (p.complete s e.elapsedTime)
  firstTest : B (.first e.key e.time now)
  setStatus : ∀ t s, B t → B (t.setStatus s)
  printTest : ∀ t, B t → B (t.print e)
  completeTest : ∀ t s, B t → B (t.complete s e.elapsedTime)
  line : C (String.ofList e.line)

section Push

variable {A : Package → Prop} {B : Test → Prop} {C : String → Prop} {r : Run} {now : Timestamp}
  {e : TestEvent}

theorem each_first (id : Nat) (time now : Timestamp) : (first id time now).Each A B C := by
  constructor <;> simp [first]

theorem Each.modify (h : r.Each A B C) {f : Package → Package} (hf : ∀ p, A p → A (f p))
    (n : String) : (r.modify n f).Each A B C :=
  ⟨Table.forall_get?_modify (fun p hp => hf p (h.packages n p hp)) fun m q _ => h.packages m q,
    h.tests, h.loose⟩

theorem Each.modifyTest (h : r.Each A B C) {f : Test → Test} (hf : ∀ t, B t → B (f t))
    (k : TestKey) : (r.modifyTest k f).Each A B C :=
  ⟨h.packages, Table.forall_get?_modify (fun t ht => hf t (h.tests k t ht))
    fun j u _ => h.tests j u, h.loose⟩

theorem Each.ensurePackage (h : r.Each A B C) {n : String} {time now : Timestamp}
    (hA : A (.first n time now)) : (r.ensurePackage n time now).Each A B C := by
  unfold Run.ensurePackage
  split
  · exact h
  · exact ⟨Table.forall_get?_insert hA fun m q _ => h.packages m q, h.tests, h.loose⟩

theorem Each.ensureTest (h : r.Each A B C) {k : TestKey} {time now : Timestamp}
    (hA : ∀ p, A p → A (p.enter k.test)) (hB : B (.first k time now)) :
    (r.ensureTest k time now).Each A B C := by
  unfold Run.ensureTest
  split
  · exact h
  · have entered := h.modify hA k.package
    exact ⟨entered.packages, Table.forall_get?_insert hB fun j u _ => h.tests j u, h.loose⟩

variable (hk : Keeps A B C now e)
include hk

theorem Each.enlist (h : r.Each A B C) : (r.enlist now e).Each A B C := by
  have observed : (r.observe e.time).Each A B C := ⟨h.packages, h.tests, h.loose⟩
  unfold Run.enlist
  split
  · exact observed.ensurePackage hk.firstPackage
  · exact (observed.ensurePackage hk.firstPackage).ensureTest hk.enter hk.firstTest

theorem Each.printLoose (h : r.Each A B C) : (r.printLoose e).Each A B C := by
  unfold Run.printLoose
  split
  · exact h
  · refine ⟨h.packages, h.tests, fun l hl => ?_⟩
    rcases List.mem_append.1 hl with hl | hl
    · exact h.loose l hl
    · rw [List.mem_singleton.1 hl]
      exact hk.line

theorem Each.finishTest (h : r.Each A B C) (s : Status) :
    (r.finishTest e.key s e.elapsedTime).Each A B C := by
  unfold Run.finishTest
  split
  · split
    · exact h
    · have completed := (h.modifyTest (fun t => hk.completeTest t s) e.key).modify
        (fun p => hk.record p s) e.package
      exact ⟨completed.packages, completed.tests, completed.loose⟩
  · exact h

theorem Each.applyToTest (h : r.Each A B C) : (r.applyToTest e).Each A B C := by
  unfold Run.applyToTest
  cases e.action
  case run => exact h.modifyTest (fun t => hk.setStatus t .running) e.key
  case resume => exact h.modifyTest (fun t => hk.setStatus t .running) e.key
  case pause => exact h.modifyTest (fun t => hk.setStatus t .paused) e.key
  case output => exact h.modifyTest hk.printTest e.key
  case pass => exact h.finishTest hk .passed
  case fail => exact h.finishTest hk .failed
  case skip => exact h.finishTest hk .skipped
  all_goals exact h

theorem Each.pushOutcome (h : r.Each A B C) (mode : Mode) {s : Status} (hs : s ≠ .interrupted) :
    (r.pushOutcome mode now e s).Each A B C := by
  unfold Run.pushOutcome
  cases hf : r.finishPackage? e.package s e.elapsedTime with
  | none => exact h
  | some r' =>
    have hr' : r'.Each A B C := by
      unfold finishPackage? at hf
      split at hf
      · split at hf
        · cases hf
        · cases hf
          have completed := h.modify (fun p => hk.completePackage p s hs) e.package
          exact ⟨completed.packages, completed.tests, completed.loose⟩
      · cases hf
    simp only [Run.settle]
    split
    · exact hr'
    · exact ⟨hr'.packages, hr'.tests, hr'.loose⟩

theorem Each.push (h : r.Each A B C) (mode : Mode) : (r.push mode now e).Each A B C := by
  have enlisted := h.enlist hk
  unfold Run.push
  by_cases hp : e.package = ""
  · rw [if_pos hp]
    have observed : (r.observe e.time).Each A B C := ⟨h.packages, h.tests, h.loose⟩
    exact observed.printLoose hk
  rw [if_neg hp]
  by_cases ht : e.test = ""
  · rw [if_pos ht]
    unfold applyToPackage
    cases e.action
    case output => exact enlisted.modify hk.printPackage e.package
    case pass => exact enlisted.pushOutcome hk mode (by simp)
    case fail => exact enlisted.pushOutcome hk mode (by simp)
    case skip => exact enlisted.pushOutcome hk mode (by simp)
    all_goals exact enlisted
  · rw [if_neg ht]
    exact enlisted.applyToTest hk

end Push

end Run
end TestWatch
