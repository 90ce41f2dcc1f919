import TestWatch.Proofs.Run.Entries
import TestWatch.Proofs.Run.Sound

/-!
# How a run ends by itself

An event leaves a run as it is in all that only its end changes, or it is the outcome of the last
package that was running and ends the run. A run that ended by itself has no open package: all of
them have passed, failed or been skipped.
-/

namespace TestWatch
namespace Run

/-- What only the end of a run changes, and what nothing changes. -/
def head (r : Run) : Nat × Status × Timestamp × Timestamp × Option Timestamp :=
  (r.id, r.status, r.start, r.wallStart, r.finish)

section Head

variable (r : Run) (k : TestKey) (e : TestEvent) (time now : Timestamp)

theorem head_ensurePackage (n : String) : (r.ensurePackage n time now).head = r.head := by
  unfold ensurePackage
  split <;> rfl

theorem head_ensureTest : (r.ensureTest k time now).head = r.head := by
  unfold ensureTest
  split <;> rfl

theorem head_enlist : (r.enlist now e).head = r.head := by
  unfold enlist
  split
  · exact head_ensurePackage _ _ _ _
  · exact (head_ensureTest _ _ _ _).trans (head_ensurePackage _ _ _ _)

theorem head_printLoose : (r.printLoose e).head = r.head := by
  unfold printLoose
  split <;> rfl

theorem head_finishTest (s : Status) (d : Duration) : (r.finishTest k s d).head = r.head := by
  unfold finishTest
  split
  · split <;> rfl
  · rfl

theorem head_applyToTest : (r.applyToTest e).head = r.head := by
  unfold applyToTest
  split
  all_goals first | rfl | exact head_finishTest _ _ _ _

theorem head_finishPackage {r r' : Run} {n : String} {s : Status} {d : Duration}
    (h : r.finishPackage? n s d = some r') : r'.head = r.head := by
  unfold finishPackage? at h
  split at h
  · split at h
    · cases h
    · cases h
      rfl
  · cases h

end Head

theorem pushOutcome_cases (mode : Mode) (now : Timestamp) (e : TestEvent) (s : Status) (r : Run) :
    (r.pushOutcome mode now e s).head = r.head ∨
      ∃ r' : Run, r'.head = r.head ∧ r'.running = 0 ∧ r'.packages.isEmpty = false ∧
        r.pushOutcome mode now e s = r'.conclude mode now := by
  unfold pushOutcome
  cases hf : r.finishPackage? e.package s e.elapsedTime with
  | none => exact .inl rfl
  | some r' =>
    by_cases hr : 0 < r'.running ∨ r'.packages.isEmpty
    · left
      simpa [settle, hr] using head_finishPackage hf
    · right
      refine ⟨r', head_finishPackage hf, by omega, by simpa using fun h => hr (.inr h), ?_⟩
      simp [settle, hr]

/-- An event either leaves the run open, or ends it when no package is running any more. -/
theorem push_cases (mode : Mode) (now : Timestamp) (e : TestEvent) (r : Run) :
    (r.push mode now e).head = r.head ∨
      ∃ r' : Run, r'.head = r.head ∧ r'.running = 0 ∧ r'.packages.isEmpty = false ∧
        r.push mode now e = r'.conclude mode now := by
  have outcome (s : Status) := pushOutcome_cases mode now e s (r.enlist now e)
  rw [head_enlist] at outcome
  unfold push
  by_cases hp : e.package = ""
  · rw [if_pos hp]
    exact .inl (head_printLoose _ _)
  rw [if_neg hp]
  by_cases ht : e.test = ""
  · rw [if_pos ht]
    unfold applyToPackage
    cases e.action
    case pass => exact outcome .passed
    case fail => exact outcome .failed
    case skip => exact outcome .skipped
    all_goals exact .inl (head_enlist r e now)
  · rw [if_neg ht]
    exact .inl ((head_applyToTest _ _).trans (head_enlist r e now))

theorem id_push (mode : Mode) (now : Timestamp) (e : TestEvent) (r : Run) :
    (r.push mode now e).id = r.id := by
  rcases push_cases mode now e r with h | ⟨r', h, _, _, he⟩
  · exact congrArg (·.1) h
  · rw [he]
    exact congrArg (·.1) h

/-- No package has been cut off. -/
def Whole (r : Run) : Prop :=
  r.Each (fun p => p.status ≠ .interrupted) (fun _ => True) fun _ => True

/-- Every package has passed, failed or been skipped. -/
def Quiet (r : Run) : Prop :=
  ∀ p ∈ r.packages.values, p.status = .passed ∨ p.status = .failed ∨ p.status = .skipped

theorem Whole.push {r : Run} (h : r.Whole) (mode : Mode) (now : Timestamp) (e : TestEvent) :
    (r.push mode now e).Whole := by
  refine Each.push ?_ h mode
  constructor
  case printPackage =>
    intro p hp
    unfold Package.print
    split
    · exact hp
    · exact hp
  all_goals simp_all [Package.first, Package.enter, Package.record, Package.complete]

/-- A run that an event ends has no open package. -/
theorem quiet_push {r : Run} {mode : Mode} {now : Timestamp} {e : TestEvent}
    (hs : (r.push mode now e).Sound) (hw : (r.push mode now e).Whole) (open_ : r.finish = none)
    (he : (r.push mode now e).finish.isSome) : (r.push mode now e).Quiet := by
  rcases push_cases mode now e r with h | ⟨r', _, hr, _, hc⟩
  · have : (r.push mode now e).finish = r.finish := congrArg (·.2.2.2.2) h
    simp [this, open_] at he
  · have none_running : (r.push mode now e).running = 0 := by
      rw [hc]
      exact hr
    rw [hs.running, List.countP_eq_zero] at none_running
    intro p hp
    obtain ⟨n, hn⟩ := (Table.mem_values _ p).1 hp
    have status := hs.packageStatus n p hn
    have whole := hw.packages n p hn
    have idle := none_running p hp
    cases hst : p.status <;> simp_all

end Run

namespace History

/-- As long as no run has been closed, those that have ended have no open package. -/
theorem quiet_pushAll (mode : Mode) (events : List (Timestamp × TestEvent)) :
    ∀ r ∈ (empty.pushAll mode events).runs, r.finish.isSome → r.Quiet := by
  have all : ∀ r ∈ (empty.pushAll mode events).runs,
      r.Sound ∧ r.Whole ∧ (r.finish.isSome → r.Quiet) := by
    refine Ordered.forall_pushAll ?_ ?_ (.idle (by simp)) (by simp)
    · exact fun id time now => ⟨Run.sound_first _ _ _, Run.each_first _ _ _, by simp [Run.first]⟩
    · rintro ⟨now, e⟩ _ r open_ ⟨hs, hw, _⟩
      exact ⟨hs.push mode now e, hw.push mode now e,
        Run.quiet_push (hs.push mode now e) (hw.push mode now e) open_⟩
  exact fun r hr => (all r hr).2.2

/-- Runs are numbered from one on, in the order in which they began. -/
theorem Reachable.ids {mode : Mode} {h : History} (hr : h.Reachable mode) :
    h.runs.map Run.id = List.range' 1 h.runs.length := by
  induction hr with
  | start => rfl
  | @push h now e hh ih =>
    cases he : concerns e with
    | false => rwa [push_of_not_concerns h he]
    | true =>
      cases hh.ordered with
      | idle =>
        rw [push_idle he]
        simp [withLatest, ih, Run.id_push, Run.first, List.range'_1_concat, Nat.add_comm]
      | busy =>
        rw [push_busy he]
        simpa [withLatest, Run.id_push] using ih
  | @finish h now hh ih =>
    cases hh.ordered with
    | idle => exact ih
    | busy =>
      rw [finish_busy]
      simpa [Run.close] using ih

end History
end TestWatch
