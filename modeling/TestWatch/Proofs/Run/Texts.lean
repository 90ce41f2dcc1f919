import TestWatch.Frame.Render
import TestWatch.Proofs.Run.Entries
import TestWatch.Proofs.Run.Reachable

/-!
# The texts of a run

All texts that a run holds are names or outputs of events, where outputs are trimmed. So what holds
of these holds of all texts of the run.
-/

namespace TestWatch

variable {Q : List Char → Prop}

/-- All texts that an event brings have `Q`, in the form in which they are kept. -/
structure TestEvent.Texts (Q : List Char → Prop) (e : TestEvent) : Prop where
  package : Q e.package.toList
  test : Q e.test.toList
  line : Q e.line
  content : Q e.content

def Package.Texts (Q : List Char → Prop) (p : Package) : Prop :=
  Q p.name.toList ∧ ∀ l, p.output = some l → Q l.toList

def Test.Texts (Q : List Char → Prop) (t : Test) : Prop :=
  Q t.name.toList ∧ (∀ l, t.headline = some l → Q l.toList) ∧ ∀ l ∈ t.output, Q l.toList

def Run.Texts (Q : List Char → Prop) (r : Run) : Prop :=
  r.Each (Package.Texts Q) (Test.Texts Q) fun l => Q l.toList

theorem Package.Texts.label {p : Package} (h : p.Texts Q) : Q (Viewer.packageLabel p).toList := by
  unfold Viewer.packageLabel
  split
  · exact h.1
  · cases ho : p.output with
    | none => exact h.1
    | some l => exact h.2 l ho

theorem Test.Texts.label {t : Test} (h : t.Texts Q)
    (word : ∀ cs, Q cs → Q ("=== RUN   ".toList ++ cs)) : Q (Viewer.testLabel t).toList := by
  unfold Viewer.testLabel
  cases hh : t.headline with
  | none =>
    rw [Option.getD_none, String.toList_append]
    exact word _ h.1
  | some l => exact h.2.1 l hh

theorem Run.Texts.test {r : Run} (h : r.Texts Q) {p : Package} {t : Test} (ht : t ∈ r.testsIn p) :
    t.Texts Q := by
  obtain ⟨x, _, hx⟩ := List.mem_filterMap.1 ht
  exact h.tests _ t hx

theorem Run.Texts.package {r : Run} (h : r.Texts Q) {p : Package} (hp : p ∈ r.packages.values) :
    p.Texts Q := by
  obtain ⟨n, hn⟩ := (Table.mem_values _ p).1 hp
  exact h.packages n p hn

theorem TestEvent.Texts.keeps {e : TestEvent} (h : e.Texts Q) (now : Timestamp) :
    Run.Keeps (Package.Texts Q) (Test.Texts Q) (fun l => Q l.toList) now e := by
  obtain ⟨package, test, line, content⟩ := h
  constructor
  case firstPackage => exact ⟨package, by simp [Package.first]⟩
  case firstTest => exact ⟨test, by simp [Test.first], by simp [Test.first]⟩
  case enter => exact fun p hp => hp
  case record => exact fun p s hp => hp
  case completePackage => exact fun p s _ hp => hp
  case completeTest => exact fun t s ht => ht
  case setStatus =>
    intro t s ht
    unfold Test.setStatus
    split
    · exact ht
    · exact ht
  case printPackage =>
    intro p hp
    unfold Package.print
    split
    · exact hp
    · refine ⟨hp.1, fun l hl => ?_⟩
      cases hl
      rwa [String.toList_ofList]
  case printTest =>
    intro t ht
    unfold Test.print
    split
    · refine ⟨ht.1, fun l hl => ?_, ht.2.2⟩
      cases hl
      rwa [String.toList_ofList]
    · split
      · exact ht
      · refine ⟨ht.1, ht.2.1, fun l hl => ?_⟩
        rcases List.mem_append.1 hl with hl | hl
        · exact ht.2.2 l hl
        · rw [List.mem_singleton.1 hl, String.toList_ofList]
          exact line
  case line => rwa [String.toList_ofList]

theorem History.texts_pushAll (mode : Mode) {events : List (Timestamp × TestEvent)}
    (h : ∀ e ∈ events, e.2.Texts Q) : ∀ r ∈ (empty.pushAll mode events).runs, r.Texts Q :=
  Ordered.forall_pushAll (fun id time now => Run.each_first id time now)
    (fun e he _ _ hr => Run.Each.push ((h e he).keeps e.1) hr mode) (.idle (by simp)) (by simp)

end TestWatch
