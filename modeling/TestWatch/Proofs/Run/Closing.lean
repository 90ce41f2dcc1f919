import TestWatch.Frame.Columns
import TestWatch.Proofs.Run.Growth
import TestWatch.Proofs.Time.Span

/-!
# Closing a run

When the stream ends, the run under way is closed: what still runs is marked as interrupted, with an
elapsed time that is worked out from the time at which the run ends. That time is a clock reading, a
sum, or the time of an event, so the estimates are consistent only as long as none of them is cut
off at zero. They are for times outside of leap seconds.
-/

namespace TestWatch
namespace Run

/-- None of the times that closing the run looks at lies within a leap second. -/
structure Regular (r : Run) (now : Timestamp) : Prop where
  now : now.isLeapSecond = false
  start : r.start.isLeapSecond = false
  lastEvent : r.lastEvent.isLeapSecond = false
  packages : ∀ p ∈ r.packages.values, p.start.isLeapSecond = false

section Estimates

variable {r : Run} {now : Timestamp} {p q : Package}

theorem Regular.cutOffElapsed_le (h : r.Regular now) (mode : Mode) (hp : p ∈ r.packages.values)
    (hq : q ∈ r.packages.values) (earlier : p.start.before q.start = true) :
    r.cutOffElapsed mode (r.endTime mode now) q ≤ r.cutOffElapsed mode (r.endTime mode now) p := by
  have begun := Timestamp.between_mono_right (h.packages p hp) (h.packages q hq) h.start earlier
  have to_end {stop : Timestamp} (regular : stop.isLeapSecond = false) :
      q.start.between stop ≤ p.start.between stop :=
    Timestamp.between_anti_left (h.packages p hp) (h.packages q hq) regular earlier
  unfold cutOffElapsed
  cases mode with
  | live => exact to_end h.now
  | replay rate =>
    cases paced : rate.isPositive with
    | true =>
      simp only [Mode.isPaced, paced, ↓reduceIte, Duration.le_def, Duration.minus] at begun ⊢
      omega
    | false =>
      simp only [Mode.isPaced, endTime, paced, Bool.false_eq_true, ↓reduceIte]
      exact to_end h.lastEvent

theorem Regular.between_endTime (h : r.Regular now) {rate : Binary64}
    (paced : rate.isPositive = true)
    (inside : (r.start.add? ((r.wallStart.between now).rescale (some rate))).isSome) :
    r.start.between (r.endTime (.replay rate) now) =
      (r.wallStart.between now).rescale (some rate) := by
  obtain ⟨stop, added⟩ := Option.isSome_iff_exists.1 inside
  have ended : r.endTime (.replay rate) now = stop := by
    simp [endTime, paced, Timestamp.add, added]
  rw [ended, Timestamp.between_add? h.start added]

/-- A package's time and its distance from the start of the run make up the run's time, unless the
package began after that. -/
theorem cutOffElapsed_of_paced {rate : Binary64} (paced : rate.isPositive = true)
    (stop : Timestamp) (p : Package) :
    let total := r.start.between stop
    let offset := r.start.between p.start
    let elapsed := r.cutOffElapsed (.replay rate) stop p
    (offset ≤ total → elapsed.nanos + offset.nanos = total.nanos) ∧
      (total < offset → elapsed = .zero) := by
  simp only [cutOffElapsed, Mode.isPaced, paced, ↓reduceIte, Duration.minus, Duration.le_def,
    Duration.lt_def, Duration.zero, Duration.mk.injEq]
  omega

/-- Without pacing the run ends with its latest event, and nothing in it begins after that. -/
theorem Regular.elapsed_of_unpaced (h : r.Regular now) (timely : r.Timely) {rate : Binary64}
    (unpaced : rate.isPositive = false) :
    ((r.start.between (r.endTime (.replay rate) now)).nanos : Int) =
        r.start.nanosBetween r.lastEvent ∧
      ∀ p ∈ r.packages.values,
        ((r.cutOffElapsed (.replay rate) (r.endTime (.replay rate) now) p).nanos : Int) =
          p.start.nanosBetween r.lastEvent := by
  have ended : r.endTime (.replay rate) now = r.lastEvent := by simp [endTime, unpaced]
  rw [ended]
  refine ⟨Timestamp.nanos_between_of_not_before h.start h.lastEvent timely.run, fun p hp => ?_⟩
  obtain ⟨n, hn⟩ := (Table.mem_values _ p).1 hp
  simp only [cutOffElapsed, Mode.isPaced, unpaced, Bool.false_eq_true, ↓reduceIte]
  exact Timestamp.nanos_between_of_not_before (h.packages p hp) h.lastEvent
    (timely.packages n p hn)

end Estimates

end Run

namespace History

variable {mode : Mode} {h : History}

theorem Reachable.exists_events (hr : h.Reachable mode) : ∀ r ∈ h.runs, r.finish = none →
    ∃ id e es, r = (Run.first id e.2.time e.1).follow mode (e :: es) := by
  induction hr with
  | start => simp
  | @push h now e hh ih =>
    cases he : concerns e with
    | false => rwa [push_of_not_concerns h he]
    | true =>
      cases hh.ordered with
      | @idle ended _ =>
        rw [push_idle he]
        exact forall_mem_append ih fun _ => ⟨_, (now, e), [], rfl⟩
      | @busy ended r _ open_ =>
        rw [push_busy he]
        refine forall_mem_append (fun x hx => ih x (List.mem_append_left _ hx)) fun _ => ?_
        obtain ⟨id, first, es, made⟩ := ih r (by simp) open_
        refine ⟨id, first, es ++ [(now, e)], ?_⟩
        rw [← List.cons_append, Run.follow_concat, ← made]
  | @finish h now hh ih =>
    intro r hm open_
    have ended := hh.ordered.isSome_finish now r hm
    simp [open_] at ended

/-- To finish a history closes the run under way and leaves all others as they are. In that run
nothing changes but the packages that are running: they are interrupted, and one that began earlier
gets no shorter time. In a paced replay the run takes as long as a frame shows at that moment, and
the time of a package makes up for its distance from the start. In a replay without pacing all
times go to the latest event, which is no earlier than any of them begins. -/
theorem finish_only_finalizes (hr : h.Reachable mode) (now : Timestamp) {r : Run}
    (under_way : h.underWay? = some r) (regular : r.Regular now) :
    ∃ (others : List Run) (r' : Run) (elapsed : Package → Duration),
      h = ⟨others ++ [r], some others.length⟩ ∧
      h.finish mode now = ⟨others ++ [r'], none⟩ ∧
      r' = { r with
        packages := r.packages.mapValues fun p =>
          if p.status = .running then { p with status := .interrupted, elapsed := elapsed p } else p
        running := 0
        finish := r'.finish
        status := r'.status } ∧
      (∀ p ∈ r.packages.values, ∀ q ∈ r.packages.values, p.start.before q.start = true →
        elapsed q ≤ elapsed p) ∧
      (∀ rate, mode = .replay rate → rate.isPositive = true →
        let total := (r.wallStart.between now).rescale (some rate)
        (r.start.add? total).isSome →
          r'.duration? = some total ∧ total = (⟨now, some rate⟩ : Moment).ofRun r ∧
          ∀ p ∈ r.packages.values, let offset := r.start.between p.start
            (offset ≤ total → (elapsed p).nanos + offset.nanos = total.nanos) ∧
              (total < offset → elapsed p = .zero)) ∧
      (∀ rate, mode = .replay rate → rate.isPositive = false →
        (∃ d, r'.duration? = some d ∧ (d.nanos : Int) = r.start.nanosBetween r.lastEvent) ∧
        (∀ p ∈ r.packages.values, ((elapsed p).nanos : Int) = p.start.nanosBetween r.lastEvent) ∧
        ∃ id e es, r = (Run.first id e.2.time e.1).follow mode (e :: es) ∧
          (∃ x ∈ e :: es, r.lastEvent = x.2.time) ∧
            ∀ x ∈ e :: es, ¬ r.lastEvent.before x.2.time = true) := by
  cases hr.ordered with
  | idle _ => cases under_way
  | @busy others r₀ _ open_ =>
    obtain rfl : r₀ = r := by simpa [underWay?] using under_way
    refine ⟨others, r₀.close mode now, r₀.cutOffElapsed mode (r₀.endTime mode now), rfl,
      finish_busy, rfl, ?_, ?_, ?_⟩
    · intro p hp q hq earlier
      exact regular.cutOffElapsed_le mode hp hq earlier
    · rintro rate rfl paced total inside
      have whole := regular.between_endTime paced inside
      have shown : total = (⟨now, some rate⟩ : Moment).ofRun r₀ := by
        simp [Moment.ofRun, Moment.since, Run.duration?, open_, total]
      refine ⟨congrArg some whole, shown, fun p _ => ?_⟩
      have parts := Run.cutOffElapsed_of_paced (r := r₀) paced (r₀.endTime (.replay rate) now) p
      rwa [whole] at parts
    · rintro rate rfl unpaced
      obtain ⟨whole, parts⟩ := regular.elapsed_of_unpaced (hr.timely r₀ (by simp)) unpaced
      refine ⟨⟨_, rfl, whole⟩, parts, ?_⟩
      obtain ⟨id, e, es, made⟩ := hr.exists_events r₀ (by simp) open_
      obtain ⟨taken, _, latest⟩ :=
        Run.lastEvent_follow (Run.first id e.2.time e.1) (.replay rate) (e :: es)
      rw [← made] at taken latest
      refine ⟨id, e, es, made, ?_, latest⟩
      rcases taken with began | taken
      · exact ⟨e, by simp, began⟩
      · exact taken

/-- A replay at half the time: two packages run when the stream ends after two seconds, which are
four seconds of the recording. The second package began one second after the first. -/
theorem finish_only_finalizes_two_packages :
    let rate := Binary64.ofQuotient 1 2
    let begin_ (n : String) (second wall : Int) : Timestamp × TestEvent :=
      (⟨wall, 0, 0⟩, ⟨⟨second, 0, 0⟩, .start, n, "", "", none⟩)
    let events := [begin_ "a" 10 0, begin_ "b" 11 1]
    let r := (Run.first 1 ⟨10, 0, 0⟩ ⟨0, 0, 0⟩).follow (.replay rate) events
    let h := empty.pushAll (.replay rate) events
    h.Reachable (.replay rate) ∧ h.underWay? = some r ∧ r.Regular ⟨2, 0, 0⟩ ∧
      rate.isPositive = true ∧ (r.start.add? ⟨4000000000⟩).isSome ∧
      ∃ r' : Run, h.finish (.replay rate) ⟨2, 0, 0⟩ = ⟨[r'], none⟩ ∧
        r'.duration? = some ⟨4000000000⟩ ∧
        ∀ p ∈ r'.packages.values,
          p.elapsed.nanos + (r.start.between p.start).nanos = 4000000000 := by
  intro rate begin_ events r h
  have hr : h.Reachable (.replay rate) := Reachable.start.pushAll _
  have under_way : h.underWay? = some r := by decide +kernel
  have regular : r.Regular ⟨2, 0, 0⟩ := ⟨by decide, by decide, by decide, by decide +kernel⟩
  have total : (r.wallStart.between ⟨2, 0, 0⟩).rescale (some rate) = ⟨4000000000⟩ := by
    decide +kernel
  have inside : (r.start.add? ⟨4000000000⟩).isSome := by decide
  obtain ⟨others, r', elapsed, held, finished, kept, _, paced, _⟩ :=
    finish_only_finalizes hr ⟨2, 0, 0⟩ under_way regular
  obtain rfl : others = [] := by
    have one : h.runs.length = 1 := by decide +kernel
    simpa [held] using one
  obtain ⟨whole, _, parts⟩ := paced rate rfl (by decide +kernel) (total ▸ inside)
  refine ⟨hr, under_way, regular, by decide +kernel, inside, r', finished, total ▸ whole, ?_⟩
  rw [kept, Table.values_mapValues, List.forall_mem_map]
  intro p hp
  have early : ∀ q ∈ r.packages.values, q.status = .running ∧
      r.start.between q.start ≤ ⟨4000000000⟩ := by decide +kernel
  obtain ⟨running, early⟩ := early p hp
  rw [if_pos running]
  rw [total] at parts
  exact (parts p hp).1 early

end History
end TestWatch
