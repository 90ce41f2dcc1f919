import TestWatch.Run.History
import Mathlib.Data.List.TakeWhile

/-!
# Histories that come about

A history comes about by events and closings, in any order and at any clock readings. In each of
them every run has ended but the last one, which may be under way; so an operation changes the
latest run or adds one, and what holds of a run at its first event and is kept by events and by
closing holds of all runs.
-/

namespace TestWatch
namespace History

/-- The histories that come about from the empty one. -/
inductive Reachable (mode : Mode) : History → Prop
  | start : Reachable mode empty
  | push {h : History} (now : Timestamp) (e : TestEvent) :
      Reachable mode h → Reachable mode (h.push mode now e)
  | finish {h : History} (now : Timestamp) :
      Reachable mode h → Reachable mode (h.finish mode now)

theorem Reachable.pushAll {mode : Mode} {h : History} (hr : h.Reachable mode)
    (events : List (Timestamp × TestEvent)) : Reachable mode (h.pushAll mode events) := by
  induction events generalizing h with
  | nil => exact hr
  | cons e es ih => exact ih (hr.push e.1 e.2)

/-- The history with `r` as its latest run, which is under way unless it has ended. -/
def withLatest (ended : List Run) (r : Run) : History :=
  ⟨ended ++ [r], if r.finish.isSome then none else some ended.length⟩

/-- All runs have ended but the last one, if that is under way. -/
inductive Ordered : History → Prop
  | idle {ended : List Run} : (∀ r ∈ ended, r.finish.isSome) → Ordered ⟨ended, none⟩
  | busy {ended : List Run} {r : Run} : (∀ r ∈ ended, r.finish.isSome) → r.finish = none →
      Ordered ⟨ended ++ [r], some ended.length⟩

theorem ordered_withLatest {ended : List Run} (h : ∀ r ∈ ended, r.finish.isSome) (r : Run) :
    Ordered (withLatest ended r) := by
  unfold withLatest
  by_cases hr : r.finish.isSome
  · rw [if_pos hr]
    refine .idle ?_
    intro x hx
    rcases List.mem_append.1 hx with hx | hx
    · exact h x hx
    · rw [List.mem_singleton.1 hx]
      exact hr
  · rw [if_neg hr]
    exact .busy h (by simpa using hr)

theorem advance_busy (ended : List Run) (r : Run) (f : Run → Run) :
    advance f ⟨ended ++ [r], some ended.length⟩ = withLatest ended (f r) := by
  have h : (ended ++ [r]).modify ended.length f = ended ++ [f r] := by
    rw [List.modify_eq_take_cons_drop (by simp)]
    simp
  simp [advance, withLatest, h]

section Steps

variable {mode : Mode} {now : Timestamp} {e : TestEvent} {ended : List Run} {r : Run}

theorem push_of_not_concerns (h : History) (he : concerns e = false) :
    h.push mode now e = h := by
  simp [push, he]

theorem push_idle (he : concerns e = true) :
    push mode now e ⟨ended, none⟩ =
      withLatest ended ((Run.first (ended.length + 1) e.time now).push mode now e) := by
  rw [push, if_pos he, ensureRun, ← advance_busy]
  rfl

theorem push_busy (he : concerns e = true) :
    push mode now e ⟨ended ++ [r], some ended.length⟩ = withLatest ended (r.push mode now e) := by
  rw [push, if_pos he, ensureRun, ← advance_busy]
  rfl

theorem finish_idle : finish mode now ⟨ended, none⟩ = ⟨ended, none⟩ := rfl

theorem finish_busy :
    finish mode now ⟨ended ++ [r], some ended.length⟩ = ⟨ended ++ [r.close mode now], none⟩ := by
  rw [finish, advance_busy]
  rfl

theorem Ordered.push {h : History} (ho : Ordered h) (now : Timestamp) (e : TestEvent) :
    Ordered (h.push mode now e) := by
  cases he : concerns e with
  | false => rwa [push_of_not_concerns h he]
  | true =>
    cases ho with
    | idle hs =>
      rw [push_idle he]
      exact ordered_withLatest hs _
    | busy hs _ =>
      rw [push_busy he]
      exact ordered_withLatest hs _

theorem Ordered.finish {h : History} (ho : Ordered h) (now : Timestamp) :
    Ordered (h.finish mode now) := by
  cases ho with
  | idle hs => exact .idle hs
  | busy hs _ =>
    rw [History.finish, advance_busy]
    exact ordered_withLatest hs _

theorem Ordered.isSome_finish {h : History} (ho : Ordered h) (now : Timestamp) :
    ∀ r ∈ (h.finish mode now).runs, r.finish.isSome := by
  cases ho with
  | idle hs => exact hs
  | busy hs _ =>
    rw [finish_busy, List.forall_mem_append]
    exact ⟨hs, by simp [Run.close]⟩

theorem Ordered.pushAll {h : History} (ho : Ordered h) (events : List (Timestamp × TestEvent)) :
    Ordered (h.pushAll mode events) := by
  induction events generalizing h with
  | nil => exact ho
  | cons e es ih => exact ih (ho.push e.1 e.2)

theorem Reachable.ordered {h : History} (hr : Reachable mode h) : Ordered h := by
  induction hr with
  | start => exact .idle (by simp)
  | push now e _ ih => exact ih.push now e
  | finish now _ ih => exact ih.finish now

end Steps

section Runs

variable {mode : Mode} {P : Run → Prop}

theorem forall_mem_append {ended : List Run} {r : Run} (he : ∀ x ∈ ended, P x) (hr : P r) :
    ∀ x ∈ ended ++ [r], P x := by
  intro x hx
  rcases List.mem_append.1 hx with hx | hx
  · exact he x hx
  · rwa [List.mem_singleton.1 hx]

theorem Ordered.forall_push (first : ∀ id time now, P (Run.first id time now))
    {now : Timestamp} {e : TestEvent}
    (push : ∀ r, r.finish = none → concerns e = true → P r → P (r.push mode now e))
    {h : History} (ho : Ordered h) (hP : ∀ r ∈ h.runs, P r) :
    ∀ r ∈ (h.push mode now e).runs, P r := by
  cases he : concerns e with
  | false => rwa [push_of_not_concerns h he]
  | true =>
    cases ho with
    | idle hs =>
      rw [push_idle he]
      exact forall_mem_append hP (push _ rfl he (first _ _ _))
    | @busy ended r hs hr =>
      rw [push_busy he]
      exact forall_mem_append (fun x hx => hP x (List.mem_append_left _ hx))
        (push r hr he (hP r (by simp)))

theorem Ordered.forall_pushAll (first : ∀ id time now, P (Run.first id time now))
    {events : List (Timestamp × TestEvent)}
    (push : ∀ e ∈ events, ∀ r, r.finish = none → P r → P (r.push mode e.1 e.2))
    {h : History} (ho : Ordered h) (hP : ∀ r ∈ h.runs, P r) :
    ∀ r ∈ (h.pushAll mode events).runs, P r := by
  induction events generalizing h with
  | nil => exact hP
  | cons e es ih =>
    have pushed := ho.forall_push first (fun r hr _ => push e List.mem_cons_self r hr) hP
    exact ih (fun x hx => push x (List.mem_cons_of_mem _ hx)) (ho.push e.1 e.2) pushed

theorem Ordered.forall_finish
    (close : ∀ now r, r.finish = none → P r → P (r.close mode now))
    {h : History} (ho : Ordered h) (hP : ∀ r ∈ h.runs, P r) (now : Timestamp) :
    ∀ r ∈ (h.finish mode now).runs, P r := by
  cases ho with
  | idle hs => exact hP
  | @busy ended r hs hr =>
    rw [finish_busy]
    exact forall_mem_append (fun x hx => hP x (List.mem_append_left _ hx))
      (close now r hr (hP r (by simp)))

/-- What a run has at its first event, and keeps at events and when it is closed, all runs have. -/
theorem Reachable.forall_runs (first : ∀ id time now, P (Run.first id time now))
    (push : ∀ now e r, r.finish = none → concerns e = true → P r → P (r.push mode now e))
    (close : ∀ now r, r.finish = none → P r → P (r.close mode now))
    {h : History} (hr : Reachable mode h) : ∀ r ∈ h.runs, P r := by
  induction hr with
  | start => simp
  | push now e hh ih => exact hh.ordered.forall_push first (push now e) ih
  | finish now hh ih => exact hh.ordered.forall_finish close ih now

end Runs

/-- The runs in front of the first that has not ended. -/
def endedRuns (h : History) : List Run := h.runs.takeWhile fun r => r.finish.isSome

theorem endedRuns_idle {ended : List Run} (hs : ∀ r ∈ ended, r.finish.isSome) :
    endedRuns ⟨ended, none⟩ = ended :=
  List.takeWhile_eq_self_iff.2 hs

theorem endedRuns_busy {ended : List Run} (hs : ∀ r ∈ ended, r.finish.isSome) {r : Run}
    (hr : r.finish = none) : endedRuns ⟨ended ++ [r], some ended.length⟩ = ended := by
  rw [endedRuns, List.takeWhile_append_of_pos hs]
  simp [hr]

theorem endedRuns_withLatest {ended : List Run} (hs : ∀ r ∈ ended, r.finish.isSome) (r : Run) :
    ended <+: (withLatest ended r).endedRuns := by
  rw [endedRuns, withLatest, List.takeWhile_append_of_pos hs]
  exact List.prefix_append _ _

theorem Ordered.endedRuns_push {mode : Mode} {h : History} (ho : Ordered h) (now : Timestamp)
    (e : TestEvent) : h.endedRuns <+: (h.push mode now e).endedRuns := by
  cases he : concerns e with
  | false => simp [push_of_not_concerns h he]
  | true =>
    cases ho with
    | idle hs =>
      rw [push_idle he, endedRuns_idle hs]
      exact endedRuns_withLatest hs _
    | busy hs hr =>
      rw [push_busy he, endedRuns_busy hs hr]
      exact endedRuns_withLatest hs _

/-- Runs that have ended stay as they are. -/
theorem Ordered.endedRuns_pushAll {mode : Mode} {h : History} (ho : Ordered h)
    (events : List (Timestamp × TestEvent)) : h.endedRuns <+: (h.pushAll mode events).endedRuns := by
  induction events generalizing h with
  | nil => exact List.prefix_rfl
  | cons e es ih => exact (ho.endedRuns_push e.1 e.2).trans (ih (ho.push e.1 e.2))

end History
end TestWatch
