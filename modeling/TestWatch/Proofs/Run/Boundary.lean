import TestWatch.Proofs.Run.Ending

/-!
# Where runs begin and end

An event that counts goes to the run under way, or begins one if there is none. It ends that run
exactly if it brings the outcome of a package that had none yet while no other package is running.
No other event ends a run, and none touches another run.
-/

namespace TestWatch

theorem Action.outcome?_isSome_iff (a : Action) :
    a.outcome?.isSome ↔ a = .pass ∨ a = .fail ∨ a = .skip := by
  cases a <;> decide

theorem Action.eq_of_outcome? {a : Action} {s : Status} (h : a.outcome? = some s) :
    s = .passed ∨ s = .failed ∨ s = .skipped := by
  cases a <;> simp_all [outcome?]

namespace Run

/-- The event is the outcome of a package of this run, a new one or one that had none yet, and no
other package is running. -/
def EndsWith (r : Run) (e : TestEvent) : Prop :=
  e.package ≠ "" ∧ e.test = "" ∧ (e.action = .pass ∨ e.action = .fail ∨ e.action = .skip) ∧
    (∀ p, r.packages.get? e.package = some p → p.status.isTerminal = false) ∧
    ∀ n p, n ≠ e.package → r.packages.get? n = some p → p.status ≠ .running

section Push

variable {r : Run} {mode : Mode} {now : Timestamp} {e : TestEvent}

/-- A package that is there stays as it is; one that is not begins to run. -/
theorem get?_ensurePackage (r : Run) (n m : String) (time now : Timestamp) :
    (r.ensurePackage n time now).packages.get? m =
      if m = n then some ((r.packages.get? n).getD (.first n time now))
      else r.packages.get? m := by
  unfold ensurePackage
  cases hn : r.packages.get? n with
  | some p =>
    by_cases hm : m = n
    · simp [hm, hn]
    · simp [hm]
  | none => simp [Table.get?_insert]

theorem get?_enlist_of_package (ht : e.test = "") (m : String) :
    (r.enlist now e).packages.get? m =
      if m = e.package then some ((r.packages.get? m).getD (.first e.package e.time now))
      else r.packages.get? m := by
  have observed := (r.observe e.time).get?_ensurePackage e.package m e.time now
  rw [enlist, if_pos ht, observed]
  by_cases hm : m = e.package
  · subst hm
    rfl
  · simp only [if_neg hm]
    rfl

theorem applyToPackage_of_outcome {s : Status} (hs : e.action.outcome? = some s) :
    r.applyToPackage mode now e = r.pushOutcome mode now e s := by
  unfold applyToPackage
  cases ha : e.action <;> simp_all [Action.outcome?]

theorem applyToPackage_of_no_outcome (ha : e.action.outcome? = none) :
    (r.applyToPackage mode now e).finish = r.finish := by
  unfold applyToPackage
  cases h : e.action <;> first | rfl | simp_all [Action.outcome?]

theorem Sound.running_eq_zero_iff (hs : r.Sound) :
    r.running = 0 ↔ ∀ n p, r.packages.get? n = some p → p.status ≠ .running := by
  rw [hs.running, List.countP_eq_zero]
  constructor
  · intro h n p hp
    simpa using h p (Table.mem_values_of_get? hp)
  · intro h p hp
    obtain ⟨n, hn⟩ := (Table.mem_values _ p).1 hp
    simpa using h n p hn

theorem finish_settle_iff (open_ : r.finish = none) :
    (r.settle mode now).finish.isSome ↔ r.running = 0 ∧ r.packages.isEmpty = false := by
  unfold settle
  by_cases h : 0 < r.running ∨ r.packages.isEmpty
  · rw [if_pos h, open_]
    rcases h with h | h
    · simp [Nat.ne_of_gt h]
    · simp [h]
  · rw [if_neg h]
    obtain ⟨hr, hp⟩ := not_or.1 h
    simp [conclude, Nat.eq_zero_of_not_pos hr, hp]

/-- The outcome of a package ends the run if the package had none and no other one is running. -/
theorem Sound.finish_pushOutcome_iff (hs : r.Sound) (open_ : r.finish = none) {p : Package}
    (hp : r.packages.get? e.package = some p) {s : Status}
    (outcome : s = .passed ∨ s = .failed ∨ s = .skipped) :
    (r.pushOutcome mode now e s).finish.isSome ↔ p.status.isTerminal = false ∧
      ∀ n q, n ≠ e.package → r.packages.get? n = some q → q.status ≠ .running := by
  cases ht : p.status.isTerminal with
  | true => simp [Run.pushOutcome, finishPackage?, hp, ht, open_]
  | false =>
    let r' := { r.modify e.package (Package.complete s e.elapsedTime) with
      running := r.running - 1 }
    have finished : r.finishPackage? e.package s e.elapsedTime = some r' := by
      simp [finishPackage?, hp, ht, r']
    have sound : r'.Sound := hs.finishPackage outcome finished
    have get (n : String) : r'.packages.get? n =
        if n = e.package then some (p.complete s e.elapsedTime) else r.packages.get? n := by
      by_cases hn : n = e.package
      · simp [r', Run.modify, Table.get?_modify, hn, hp]
      · simp [r', Run.modify, Table.get?_modify, hn]
    have some_package : r'.packages.isEmpty = false := by
      have key : e.package ∈ r'.packages.keys := (Table.mem_keys _ _).2 (by simp [get])
      cases he : r'.packages.entries with
      | nil => simp [Table.keys, he] at key
      | cons x xs => simp [Table.isEmpty, he]
    have settled : r.pushOutcome mode now e s = r'.settle mode now := by
      simp [Run.pushOutcome, finished]
    have idle : (p.complete s e.elapsedTime).status ≠ .running := by
      rcases outcome with rfl | rfl | rfl <;> simp [Package.complete]
    rw [settled, finish_settle_iff (r := r') open_, sound.running_eq_zero_iff]
    simp only [some_package, and_true, true_and]
    constructor
    · intro h n q hn hq
      exact h n q (by rw [get, if_neg hn, hq])
    · intro h n q hq
      rw [get] at hq
      split at hq
      · cases hq
        exact idle
      · exact h n q ‹_› hq

/-- An event ends a run that is open exactly if it is the outcome of its last open package. -/
theorem Sound.finish_push_iff (hs : r.Sound) (open_ : r.finish = none) :
    (r.push mode now e).finish.isSome ↔ r.EndsWith e := by
  have enlisted : (r.enlist now e).finish = none :=
    (congrArg (·.2.2.2.2) (head_enlist r e now)).trans open_
  unfold Run.push EndsWith
  by_cases hp : e.package = ""
  · have loose : ((r.observe e.time).printLoose e).finish = none :=
      (congrArg (·.2.2.2.2) (head_printLoose (r.observe e.time) e)).trans open_
    simp [hp, loose]
  by_cases ht : e.test = ""
  · rw [if_neg hp, if_pos ht]
    cases ha : e.action.outcome? with
    | none =>
      have other : ¬ (e.action = .pass ∨ e.action = .fail ∨ e.action = .skip) := by
        rw [← Action.outcome?_isSome_iff, ha]
        simp
      rw [applyToPackage_of_no_outcome ha, enlisted]
      simp [other]
    | some s =>
      have outcome : e.action = .pass ∨ e.action = .fail ∨ e.action = .skip := by
        rw [← Action.outcome?_isSome_iff, ha]
        rfl
      have here : (r.enlist now e).packages.get? e.package =
          some ((r.packages.get? e.package).getD (.first e.package e.time now)) := by
        rw [get?_enlist_of_package ht, if_pos rfl]
      rw [applyToPackage_of_outcome ha, (hs.enlist now e).finish_pushOutcome_iff enlisted here
        (Action.eq_of_outcome? ha)]
      have others (n : String) (hn : n ≠ e.package) :
          (r.enlist now e).packages.get? n = r.packages.get? n := by
        rw [get?_enlist_of_package ht, if_neg hn]
      constructor
      · rintro ⟨fresh, idle⟩
        refine ⟨hp, ht, outcome, fun p hg => ?_, fun n q hn hq => idle n q hn (others n hn ▸ hq)⟩
        simpa [hg] using fresh
      · rintro ⟨-, -, -, fresh, idle⟩
        refine ⟨?_, fun n q hn hq => idle n q hn (others n hn ▸ hq)⟩
        cases hg : r.packages.get? e.package with
        | none => rfl
        | some p => exact fresh p hg
  · have tested : ((r.enlist now e).applyToTest e).finish = none :=
      (congrArg (·.2.2.2.2) (head_applyToTest _ e)).trans enlisted
    simp [hp, ht, tested]

theorem endsWith_first_iff (id : Nat) (time now : Timestamp) :
    (first id time now).EndsWith e ↔
      e.package ≠ "" ∧ e.test = "" ∧ (e.action = .pass ∨ e.action = .fail ∨ e.action = .skip) := by
  simp [EndsWith, first]

end Push

end Run

namespace History

theorem concerns_iff (e : TestEvent) :
    concerns e = true ↔ e.package ≠ "" ∨ e.action.isBuild = true := by
  simp [concerns]

/-- The run that an event goes to, and what becomes of it. -/
theorem Reachable.push_touches {mode : Mode} {h : History} (hr : h.Reachable mode) (now : Timestamp)
    {e : TestEvent} (he : concerns e = true) : ∃ (others : List Run) (r r' : Run),
      (h = ⟨others ++ [r], some others.length⟩ ∨
        h = ⟨others, none⟩ ∧ r = Run.first (others.length + 1) e.time now) ∧
      r.id = others.length + 1 ∧ r.finish = none ∧ r'.id = r.id ∧
      (r'.finish.isSome ↔ r.EndsWith e) ∧
      h.push mode now e =
        ⟨others ++ [r'], if r'.finish.isSome then none else some others.length⟩ := by
  have ids := hr.ids
  have sound := hr.sound
  cases hr.ordered with
  | @idle ended hs =>
    let r := Run.first (ended.length + 1) e.time now
    exact ⟨ended, r, r.push mode now e, .inr ⟨rfl, rfl⟩, rfl, rfl, Run.id_push _ _ _ _,
      (Run.sound_first _ _ _).finish_push_iff rfl, push_idle he⟩
  | @busy ended r hs open_ =>
    have id : r.id = ended.length + 1 := by
      have last := congrArg List.getLast? ids
      simpa [List.range'_1_concat, Nat.add_comm] using last
    exact ⟨ended, r, r.push mode now e, .inl rfl, id, open_, Run.id_push _ _ _ _,
      (sound r (by simp)).finish_push_iff open_, push_busy he⟩

theorem Reachable.finish_underWay {mode : Mode} {h : History} (hr : h.Reachable mode) {r : Run}
    (hu : h.underWay? = some r) : r.finish = none := by
  cases hr.ordered with
  | idle hs => cases hu
  | @busy ended r' hs open_ =>
    have : r' = r := by simpa [underWay?] using hu
    exact this ▸ open_

/-- An event that has no package and is no build event changes nothing. Any other goes to the run
under way, or begins the next one, and leaves all others as they are. It ends that run exactly if it
is the outcome of its last open package, and else the run is under way afterwards. So the outcome of
a package begins and ends a run by itself if none is under way, and no event of a package that had
an outcome before ends the run. -/
theorem run_boundaries {mode : Mode} {h : History} (hr : h.Reachable mode) (now : Timestamp)
    (e : TestEvent) :
    (e.package = "" → e.action.isBuild = false → h.push mode now e = h) ∧
    (e.package ≠ "" ∨ e.action.isBuild = true → ∃ (others : List Run) (r r' : Run),
      (h = ⟨others ++ [r], some others.length⟩ ∨
        h = ⟨others, none⟩ ∧ r = Run.first (others.length + 1) e.time now) ∧
      r.id = others.length + 1 ∧ r.finish = none ∧ r'.id = r.id ∧
      (r'.finish.isSome ↔ r.EndsWith e) ∧
      h.push mode now e =
        ⟨others ++ [r'], if r'.finish.isSome then none else some others.length⟩) ∧
    (h.current = none → e.package ≠ "" → e.test = "" →
      (e.action = .pass ∨ e.action = .fail ∨ e.action = .skip) →
        ∃ r', r'.finish.isSome ∧ h.push mode now e = ⟨h.runs ++ [r'], none⟩) ∧
    (∀ r p, h.underWay? = some r → r.packages.get? e.package = some p → p.status.isTerminal →
      ∃ r', (h.push mode now e).underWay? = some r' ∧ r'.id = r.id ∧ r'.finish = none) := by
  refine ⟨?_, ?_, ?_, ?_⟩
  · intro hp hb
    exact push_of_not_concerns h (by simp [concerns, hp, hb])
  · intro he
    exact hr.push_touches now ((concerns_iff e).2 he)
  · intro idle hp ht outcome
    obtain ⟨others, r, r', this_run, _, _, _, ends, pushed⟩ :=
      hr.push_touches now ((concerns_iff e).2 (.inl hp))
    rcases this_run with rfl | ⟨rfl, rfl⟩
    · cases idle
    · have ended := ends.2 ((Run.endsWith_first_iff _ _ _).2 ⟨hp, ht, outcome⟩)
      exact ⟨r', ended, by rw [pushed, if_pos ended]⟩
  · intro r p under_way hp terminal
    cases he : concerns e with
    | false => exact ⟨r, by rwa [push_of_not_concerns h he], rfl, hr.finish_underWay under_way⟩
    | true =>
      obtain ⟨others, r₀, r', this_run, _, _, id, ends, pushed⟩ := hr.push_touches now he
      rcases this_run with rfl | ⟨rfl, rfl⟩
      · obtain rfl : r₀ = r := by simpa [underWay?] using under_way
        have open_ : r'.finish = none := by
          rw [← Option.not_isSome_iff_eq_none, ends]
          rintro ⟨_, _, _, fresh, _⟩
          simp [fresh p hp] at terminal
        exact ⟨r', by simp [pushed, open_, underWay?], id, open_⟩
      · cases under_way

/-- A package that passed before does not end the run by passing again, the last one does. -/
theorem run_boundaries_last_package :
    let h := empty.pushAll .live [(default, ⟨default, .start, "a", "", "", none⟩),
      (default, ⟨default, .pass, "b", "", "", none⟩)]
    let again : TestEvent := ⟨default, .fail, "b", "", "", none⟩
    let last : TestEvent := ⟨default, .pass, "a", "", "", none⟩
    (h.push .live default again).current = some 0 ∧ (h.push .live default last).current = none ∧
      ∃ (others : List Run) (r r' : Run), (h.push .live default last).runs = others ++ [r'] ∧
        (r'.finish.isSome ↔ r.EndsWith last) := by
  intro h again last
  have hr : h.Reachable .live := Reachable.start.pushAll _
  obtain ⟨_, touched, _, _⟩ := run_boundaries hr default last
  obtain ⟨others, r, r', _, _, _, _, ends, pushed⟩ := touched (.inl (by decide))
  exact ⟨by decide, by decide, others, r, r', by rw [pushed], ends⟩

end History
end TestWatch
