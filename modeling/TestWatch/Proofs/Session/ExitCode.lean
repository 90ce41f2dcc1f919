import TestWatch.Proofs.Run.Lifecycle
import TestWatch.Proofs.Run.Listing
import TestWatch.Proofs.Session.Reports
import TestWatch.Session.Schedule

/-!
# What the exit code tells

When a session is over, all its runs have ended, each in one of four ways. The exit code is folded
from three flags, and tells interrupted sessions, failures and the rest apart. The rest are the runs
that passed, and those that saw no package: a build that fails before any test leaves such a run,
and the session counts as a success.
-/

namespace TestWatch

/-- A run ends unknown if none of its events names a package. -/
theorem Run.Ended.unknown_iff {r : Run} (h : r.Ended) (hs : r.Sound) {mode : Mode}
    {events : List (Timestamp × TestEvent)} (made : r.MadeBy mode events) :
    r.status = .unknown ↔ ∀ e ∈ events, e.2.package = "" := by
  have names := (made.names hs).1
  rw [h.unknown, ← List.map_eq_nil_iff, names, firstSeen_eq_nil_iff, List.forall_mem_map]

namespace Outcome

theorem exitCode_toNat (o : Outcome) : o.exitCode.toNat =
    if o.interrupted || o.signalled then 106 else if o.failed then 100 else 0 := by
  unfold exitCode
  split
  · rfl
  · split <;> rfl

section OfHistory

variable {h : History} (signalled : Bool)

theorem interrupted_ofHistory_iff :
    (ofHistory h signalled).interrupted = true ↔ ∃ r ∈ h.runs, r.status = .interrupted := by
  simp [ofHistory]

theorem failed_ofHistory_iff (hs : ∀ r ∈ h.runs, r.Sound) :
    (ofHistory h signalled).failed = true ↔ ∃ r ∈ h.runs, r.Failing := by
  rw [ofHistory, List.any_eq_true]
  constructor
  · rintro ⟨r, hm, failures⟩
    exact ⟨r, hm, (hs r hm).hasFailures_iff.1 failures⟩
  · rintro ⟨r, hm, failing⟩
    exact ⟨r, hm, (hs r hm).hasFailures_iff.2 failing⟩

theorem exitCode_eq_106_iff : (ofHistory h signalled).exitCode.toNat = 106 ↔
    signalled = true ∨ ∃ r ∈ h.runs, r.status = .interrupted := by
  rw [exitCode_toNat, ← interrupted_ofHistory_iff signalled, or_comm]
  change _ ↔ (ofHistory h signalled).interrupted = true ∨ (ofHistory h signalled).signalled = true
  grind

theorem exitCode_eq_100_iff (hs : ∀ r ∈ h.runs, r.Sound) :
    (ofHistory h signalled).exitCode.toNat = 100 ↔
      ¬ (signalled = true ∨ ∃ r ∈ h.runs, r.status = .interrupted) ∧ ∃ r ∈ h.runs, r.Failing := by
  rw [← exitCode_eq_106_iff, ← failed_ofHistory_iff signalled hs, exitCode_toNat]
  grind

theorem exitCode_eq_0_iff (hs : ∀ r ∈ h.runs, r.Sound) (ended : ∀ r ∈ h.runs, r.Ended) :
    (ofHistory h signalled).exitCode.toNat = 0 ↔
      signalled = false ∧ ∀ r ∈ h.runs, r.status = .passed ∨ r.status = .unknown := by
  have neither : (ofHistory h signalled).exitCode.toNat = 0 ↔
      (ofHistory h signalled).exitCode.toNat ≠ 106 ∧ ¬ (ofHistory h signalled).failed = true := by
    rw [exitCode_toNat]
    grind
  have each : (∀ r ∈ h.runs, r.status = .passed ∨ r.status = .unknown) ↔
      (∀ r ∈ h.runs, r.status ≠ .interrupted) ∧ ∀ r ∈ h.runs, ¬ r.Failing := by
    rw [← forall₂_and]
    exact forall₂_congr fun r hm => (ended r hm).passed_or_unknown_iff (hs r hm)
  rw [each, neither, ne_eq, exitCode_eq_106_iff, failed_ofHistory_iff signalled hs]
  push Not
  rw [ne_eq, Bool.not_eq_true, and_assoc]

end OfHistory

end Outcome

namespace Session

theorem reachable_turn (s : Session) (x : Reading) (t : Turn) {st : Standing}
    (h : st.history.Reachable s.mode) : (s.turn x t st).1.history.Reachable s.mode := by
  cases t with
  | batch events => exact h.pushAll _
  | tick => exact h
  | close => exact h.finish _

theorem reachable_run (s : Session) (ts : List (Reading × Turn)) {st : Standing}
    (h : st.history.Reachable s.mode) : (s.run st ts).1.history.Reachable s.mode := by
  induction ts generalizing st with
  | nil => exact h
  | cons t ts ih => exact ih (s.reachable_turn t.1 t.2 h)

/-- Once a session is closed, all its runs have ended. -/
theorem ended_run_close (s : Session) (ts : List (Reading × Turn)) (x : Reading) :
    let final := (s.run start (ts ++ [(x, .close)])).1.history
    final.Reachable s.mode ∧ ∀ r ∈ final.runs, r.Ended := by
  intro final
  have reachable : final.Reachable s.mode := s.reachable_run _ .start
  have closed : ∀ r ∈ final.runs, r.finish.isSome := by
    have before : (s.run start ts).1.history.Reachable s.mode := s.reachable_run ts .start
    have last : final = (s.run start ts).1.history.finish s.mode (x.clock 0) := by
      simp only [final, run_append]
      rfl
    rw [last]
    exact before.ordered.isSome_finish _
  exact ⟨reachable, fun r hm => (reachable.lifecycle r hm).2 (closed r hm)⟩

/-- The outcome of a session is that of the runs that it leaves. -/
theorem outcome_perform? {s : Session} {c : Connections} {pipe : Pipe} {signalled : Bool}
    {clock : Nat → Timestamp} {moments : List Moment} {p : Performance} {o : Outcome}
    (h : s.perform? c pipe signalled clock moments = some p) (ended : p.result = .ok o) :
    o = .ofHistory (s.run start (onClock clock c.height moments)).1.history signalled := by
  obtain ⟨⟨display, done⟩, _, rfl⟩ := Option.map_eq_some_iff.1 h
  simp only at ended
  split at ended
  · cases result : pipe.result c.source c.raw with
    | ok _ =>
      rw [result] at ended
      exact (Except.ok.inj ended).symm
    | error _ =>
      rw [result] at ended
      cases ended
  · cases ended

/-- The exit code of a session. It is 106 if a signal ended the session or a run was interrupted; if
neither, it is 100 if a run has a failed test or package; and it is 0 if all runs have passed or
ended unknown, because no event of theirs names a package. So 0 says that all runs have passed,
provided that each of them saw a package. -/
theorem exit_code_of_runs (s : Session) (ts : List (Reading × Turn)) (x : Reading)
    (signalled : Bool) :
    let final := (s.run start (ts ++ [(x, .close)])).1.history
    let code := (Outcome.ofHistory final signalled).exitCode.toNat
    (code = 0 ↔ signalled = false ∧ ∀ r ∈ final.runs, r.status = .passed ∨ r.status = .unknown) ∧
    (code = 106 ↔ signalled = true ∨ ∃ r ∈ final.runs, r.status = .interrupted) ∧
    (code = 100 ↔ ¬ (signalled = true ∨ ∃ r ∈ final.runs, r.status = .interrupted) ∧
      ∃ r ∈ final.runs, r.Failing) ∧
    (∀ r ∈ final.runs, ∃ events, r.MadeBy s.mode events ∧
      (r.status = .unknown ↔ ∀ e ∈ events, e.2.package = "")) ∧
    ((∀ r ∈ final.runs, r.packages.values ≠ []) →
      (code = 0 ↔ signalled = false ∧ ∀ r ∈ final.runs, r.status = .passed)) ∧
    ∀ c pipe clock moments p o, onClock clock c.height moments = ts ++ [(x, .close)] →
      s.perform? c pipe signalled clock moments = some p → p.result = .ok o →
        o.exitCode.toNat = code := by
  intro final code
  obtain ⟨reachable, ended⟩ := s.ended_run_close ts x
  have sound := reachable.sound
  have zero := Outcome.exitCode_eq_0_iff signalled sound ended
  refine ⟨zero, Outcome.exitCode_eq_106_iff signalled,
    Outcome.exitCode_eq_100_iff signalled sound, ?_, ?_, ?_⟩
  · intro r hm
    obtain ⟨events, made⟩ := reachable.exists_madeBy r hm
    exact ⟨events, made, (ended r hm).unknown_iff (sound r hm) made⟩
  · intro some_package
    have known : ∀ r ∈ final.runs,
        (r.status = .passed ∨ r.status = .unknown ↔ r.status = .passed) :=
      fun r hm => or_iff_left fun unknown => some_package r hm ((ended r hm).unknown.1 unknown)
    rw [zero, forall₂_congr known]
  · intro c pipe clock moments p o turns performed result
    rw [outcome_perform? performed result, turns]

/-- A test fails in the first run, and the second is cut off. -/
theorem exit_code_of_runs_cut_off :
    let s : Session := ⟨.live, ⟨⟨false, false⟩, 3, .fixed⟩, ⟨⟨false, false⟩, .zero⟩, true, 80⟩
    let x : Reading := .still default 24
    let ts := [(x, .batch [⟨default, .fail, "a", "T", "", none⟩,
      ⟨default, .pass, "a", "", "", none⟩, ⟨default, .run, "b", "T", "", none⟩])]
    let final := (s.run start (ts ++ [(x, .close)])).1.history
    final.runs.map Run.status = [.failed, .interrupted] ∧
      (Outcome.ofHistory final false).exitCode.toNat = 106 := by
  intro s x ts final
  have statuses : final.runs.map Run.status = [.failed, .interrupted] := by decide
  have cut_off : ∃ r ∈ final.runs, r.status = .interrupted := by
    apply List.mem_map.1
    rw [statuses]
    exact List.mem_cons_of_mem _ List.mem_cons_self
  exact ⟨statuses, (exit_code_of_runs s ts x false).2.1.2 (.inr cut_off)⟩

/-- A build fails before any test. Its run ends unknown, and the exit code is 0. -/
theorem exit_code_of_failed_build :
    ¬ ∀ (s : Session) (ts : List (Reading × Turn)) (x : Reading) (signalled : Bool),
      let final := (s.run start (ts ++ [(x, .close)])).1.history
      (Outcome.ofHistory final signalled).exitCode.toNat = 0 →
        signalled = false ∧ ∀ r ∈ final.runs, r.status = .passed := by
  intro passed
  let s : Session := ⟨.live, ⟨⟨false, false⟩, 3, .fixed⟩, ⟨⟨false, false⟩, .zero⟩, false, 80⟩
  let x : Reading := .still default 24
  let ts : List (Reading × Turn) := [(x, .batch [⟨default, .buildFail, "", "", "", none⟩])]
  let final := (s.run start (ts ++ [(x, .close)])).1.history
  have statuses : final.runs.map Run.status = [.unknown] := by decide
  obtain ⟨r, hm, unknown⟩ : ∃ r ∈ final.runs, r.status = .unknown := by
    apply List.mem_map.1
    rw [statuses]
    exact List.mem_cons_self
  obtain ⟨_, all⟩ := passed s ts x false (by decide)
  simp [all r hm] at unknown

end Session
end TestWatch
