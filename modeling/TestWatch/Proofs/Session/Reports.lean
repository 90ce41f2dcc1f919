import TestWatch.Proofs.Frame.Still
import TestWatch.Proofs.Session.Showing

/-!
# The reports of a session

A session reports every run once, in order, whatever its schedule is. Between turns the reports so
far are those of the runs that have ended; they were made at different clock readings, but a run
that ended by itself has the same report at all of them. A batch may end several runs, and closing
ends at most one.
-/

namespace TestWatch

def Call.committed? : Call → Option (List Char)
  | .draw _ => none
  | .commit text => some text

namespace Session

variable {s : Session} {x : Reading} {st : Standing} {events : List (Timestamp × TestEvent)}
  {sights : List Sight}

def committed (calls : List Call) : List (List Char) := calls.filterMap Call.committed?

theorem committed_append (cs ds : List Call) :
    committed (cs ++ ds) = committed cs ++ committed ds :=
  List.filterMap_append

/-- The reports among what is shown, each if it can be rendered. -/
def texts (s : Session) : List Sight → List (Option (List Char))
  | [] => []
  | .draw _ _ _ :: ws => s.texts ws
  | .report now r :: ws => s.report? now r :: s.texts ws

@[simp] theorem texts_append (ws ws' : List Sight) :
    s.texts (ws ++ ws') = s.texts ws ++ s.texts ws' := by
  induction ws with
  | nil => rfl
  | cons w ws ih => cases w <;> simp [texts, ih]

@[simp] theorem texts_draw : s.texts (s.draw x st) = [] := by
  unfold draw
  split
  · cases st.history.underWay? <;> rfl
  · rfl

theorem texts_reports (es : List (Timestamp × Run)) :
    s.texts (es.map fun e => .report e.1 e.2) = es.map fun e => s.report? e.1 e.2 := by
  induction es with
  | nil => rfl
  | cons e es ih => simp [texts, ih]

theorem map_some_committed {calls : List Call} (h : s.calls? sights = some calls) :
    (committed calls).map some = s.texts sights := by
  induction sights generalizing calls with
  | nil =>
    cases h
    rfl
  | cons w ws ih =>
    -- All calls can be made, so the first one can, and the others by induction.
    obtain ⟨c, cs, rfl, first, rest⟩ := List.map_eq_cons_iff.1 (mapM_eq_some_iff.1 h).symm
    have others := ih (mapM_eq_some_iff.2 rest.symm)
    cases w with
    | draw now height r =>
      obtain ⟨frame, _, rfl⟩ := Option.map_eq_some_iff.1 first.symm
      exact others
    | report now r =>
      obtain ⟨text, shown, rfl⟩ := Option.map_eq_some_iff.1 first.symm
      rw [texts, shown, ← others]
      rfl

/-- Sessions with the same reports commit the same texts if both show all. -/
theorem committed_eq_of_texts_eq {s' : Session} {sights' : List Sight} {calls calls' : List Call}
    (shown : s.calls? sights = some calls) (shown' : s'.calls? sights' = some calls')
    (same : s.texts sights = s'.texts sights') : committed calls = committed calls' := by
  rw [← map_some_committed shown, ← map_some_committed shown'] at same
  exact (List.map_inj_right fun _ _ => Option.some.inj).1 same

/-- The report of a run that ended by itself does not read the clock. -/
theorem report?_eq_of_quiet {r : Run} (hf : r.finish.isSome) (hq : r.Quiet)
    (now now' : Timestamp) : s.report? now r = s.report? now' r := by
  rw [report?, report?, frame?, frame?, s.viewer.frame?_eq_of_quiet _ ⟨now', s.mode.rate?⟩ hf hq]

def dueAt (x : Reading) (st : Standing) : List (Timestamp × Run) :=
  (due st).mapIdx fun i r => (x.clock i, r)

theorem reportDue_snd : (reportDue x st).2 = (dueAt x st).map fun e => .report e.1 e.2 := by
  apply List.ext_getElem (by simp [reportDue, dueAt])
  simp [reportDue, dueAt]

theorem texts_reportDue_of_quiet (hq : ∀ r ∈ due st, r.finish.isSome ∧ r.Quiet)
    (now : Timestamp) : s.texts (reportDue x st).2 = (due st).map (s.report? now) := by
  rw [reportDue_snd, texts_reports]
  apply List.ext_getElem (by simp [dueAt])
  intro i h _
  obtain ⟨hf, hq⟩ := hq _ (List.getElem_mem (by simpa [dueAt] using h))
  simpa [dueAt] using report?_eq_of_quiet hf hq _ now

/-- Of the runs that have ended, those are due that were not reported. -/
theorem due_eq_drop {h : History} {n : Nat} (hn : n ≤ h.endedRuns.length) :
    due ⟨h, n⟩ = h.endedRuns.drop n := by
  have split : h.runs.drop n =
      h.endedRuns.drop n ++ h.runs.dropWhile (fun r => r.finish.isSome) := by
    rw [← List.drop_append_of_le_length hn, History.endedRuns, List.takeWhile_append_dropWhile]
  rw [due, split, List.takeWhile_append_of_pos, List.takeWhile_eq_nil_iff.2, List.append_nil]
  · intro hl
    exact List.dropWhile_get_zero_not _ _ hl
  · intro r hr
    have hm : r ∈ h.endedRuns := List.mem_of_mem_drop hr
    exact List.mem_takeWhile_imp (p := fun r : Run => r.finish.isSome) hm

/-- What holds between turns: the runs that have ended were reported, as at any clock reading. -/
structure UpToDate (s : Session) (events : List (Timestamp × TestEvent)) (st : Standing)
    (sights : List Sight) : Prop where
  history : st.history = History.empty.pushAll s.mode events
  reported : st.reported = st.history.endedRuns.length
  texts : ∀ now, s.texts sights = st.history.endedRuns.map (s.report? now)

theorem upToDate_start : s.UpToDate [] start [] := ⟨rfl, rfl, fun _ => rfl⟩

theorem UpToDate.ordered (hu : s.UpToDate events st sights) : st.history.Ordered := by
  rw [hu.history]
  exact (History.Reachable.start.pushAll events).ordered

theorem UpToDate.draw (hu : s.UpToDate events st sights) (x : Reading) :
    s.UpToDate events st (sights ++ s.draw x st) := by
  refine ⟨hu.history, hu.reported, fun now => ?_⟩
  simpa using hu.texts now

/-- Once more events have been taken, the runs that they ended are reported. -/
theorem UpToDate.reportDue (hu : s.UpToDate events st sights) (x : Reading)
    (more : List (Timestamp × TestEvent)) :
    let st' : Standing := ⟨st.history.pushAll s.mode more, st.reported⟩
    s.UpToDate (events ++ more) (reportDue x st').1 (sights ++ (reportDue x st').2) := by
  intro st'
  have history : st'.history = History.empty.pushAll s.mode (events ++ more) := by
    simp only [st', hu.history, History.pushAll, List.foldl_append]
  have kept : st.history.endedRuns <+: st'.history.endedRuns :=
    hu.ordered.endedRuns_pushAll more
  have hdue : due st' = st'.history.endedRuns.drop st.history.endedRuns.length := by
    rw [← hu.reported]
    exact due_eq_drop (hu.reported ▸ kept.length_le)
  have quiet : ∀ r ∈ due st', r.finish.isSome ∧ r.Quiet := by
    intro r hr
    have ended : r ∈ st'.history.endedRuns := List.mem_of_mem_drop (hdue ▸ hr)
    have hf := List.mem_takeWhile_imp (p := fun r : Run => r.finish.isSome) ended
    rw [history] at ended
    exact ⟨hf, History.quiet_pushAll _ _ r ((List.takeWhile_sublist _).mem ended) hf⟩
  refine ⟨history, ?_, fun now => ?_⟩
  · change st.reported + (due st').length = st'.history.endedRuns.length
    have := kept.length_le
    rw [hdue, hu.reported, List.length_drop]
    omega
  · change _ = st'.history.endedRuns.map (s.report? now)
    rw [texts_append, hu.texts now, texts_reportDue_of_quiet quiet now, hdue, ← List.map_append,
      List.prefix_iff_eq_append.1 kept]

theorem UpToDate.turn (hu : s.UpToDate events st sights) (x : Reading) {t : Turn}
    (going : t ≠ .close) :
    s.UpToDate (events ++ eventsOf (x, t)) (s.turn x t st).1 (sights ++ (s.turn x t st).2) := by
  cases t with
  | batch es =>
    have drawn := (hu.reportDue (x.later es.length) (eventsOf (x, .batch es))).draw
    simp only [List.append_assoc] at drawn
    exact drawn _
  | tick =>
    have drawn := hu.draw x
    rw [← List.append_nil events] at drawn
    exact drawn
  | close => exact absurd rfl going

theorem UpToDate.run (hu : s.UpToDate events st sights) (ts : List (Reading × Turn))
    (going : ∀ t ∈ ts, t.2 ≠ .close) :
    s.UpToDate (events ++ delivered ts) (s.run st ts).1 (sights ++ (s.run st ts).2) := by
  induction ts generalizing st events sights with
  | nil => simpa [delivered, Session.run] using hu
  | cons t ts ih =>
    obtain ⟨x, t⟩ := t
    have step := hu.turn x (going _ List.mem_cons_self)
    have rest := ih step fun t ht => going t (List.mem_cons_of_mem _ ht)
    simpa [delivered, Session.run, List.append_assoc] using rest

theorem UpToDate.close (hu : s.UpToDate events st sights) (x : Reading) :
    let final := st.history.finish s.mode (x.clock 0)
    (s.turn x .close st).1 = ⟨final, final.runs.length⟩ ∧
      ∀ now, now = x.clock 1 ∨ st.history.underWay? = none →
        s.texts (sights ++ (s.turn x .close st).2) = final.runs.map (s.report? now) := by
  obtain ⟨h, n⟩ := st
  obtain rfl : n = h.endedRuns.length := hu.reported
  have before := hu.texts
  have closing : (s.turn x .close ⟨h, h.endedRuns.length⟩).2 =
      (dueAt (x.later 1) ⟨h.finish s.mode (x.clock 0), h.endedRuns.length⟩).map
        fun e => .report e.1 e.2 := reportDue_snd
  rw [closing, texts_append, texts_reports]
  constructor
  · cases hu.ordered with
    | @idle ended hs =>
      simp [Session.turn, Session.reportDue, due, History.endedRuns_idle hs, History.finish_idle]
    | @busy ended r hs hr =>
      simp [Session.turn, Session.reportDue, due, History.endedRuns_busy hs hr,
        History.finish_busy, Run.close]
  · intro now hnow
    cases hu.ordered with
    | @idle ended hs =>
      simp only [History.endedRuns_idle hs] at before
      simp [before now, dueAt, due, History.endedRuns_idle hs, History.finish_idle]
    | @busy ended r hs hr =>
      simp only [History.endedRuns_busy hs hr] at before
      have reading : now = x.clock 1 := by simpa [History.underWay?] using hnow
      simp [before now, dueAt, due, History.endedRuns_busy hs hr, History.finish_busy, Run.close,
        Reading.later, reading]

/-- What a session comes to that is closed after some turns. -/
theorem run_close (s : Session) (ts : List (Reading × Turn)) (x : Reading)
    (going : ∀ t ∈ ts, t.2 ≠ .close) :
    let before := History.empty.pushAll s.mode (delivered ts)
    let final := before.finish s.mode (x.clock 0)
    (s.run start (ts ++ [(x, .close)])).1 = ⟨final, final.runs.length⟩ ∧
      (∃ last : List (Timestamp × Run), (s.run start (ts ++ [(x, .close)])).2 =
          (s.run start ts).2 ++ last.map fun e => .report e.1 e.2) ∧
        ∀ now, now = x.clock 1 ∨ before.underWay? = none →
          s.texts (s.run start (ts ++ [(x, .close)])).2 = final.runs.map (s.report? now) := by
  intro before final
  have hu : s.UpToDate (delivered ts) (s.run start ts).1 (s.run start ts).2 :=
    upToDate_start.run ts going
  have history : (s.run start ts).1.history = before := hu.history
  have all : s.run start (ts ++ [(x, .close)]) = ((s.turn x .close (s.run start ts).1).1,
      (s.run start ts).2 ++ (s.turn x .close (s.run start ts).1).2) := by
    simp [run_append, Session.run]
  obtain ⟨standing, texts⟩ := hu.close x
  rw [history] at standing texts
  rw [all]
  exact ⟨standing, ⟨_, congrArg _ reportDue_snd⟩, texts⟩

theorem mem_texts_iff {text : Option (List Char)} :
    text ∈ s.texts sights ↔ ∃ now r, .report now r ∈ sights ∧ s.report? now r = text := by
  induction sights with
  | nil => simp [texts]
  | cons w ws ih =>
    cases w with
    | draw now height r => simp [texts, ih]
    | report now r =>
      rw [texts, List.mem_cons, ih]
      constructor
      · rintro (rfl | ⟨now', r', mem, rfl⟩)
        · exact ⟨now, r, List.mem_cons_self, rfl⟩
        · exact ⟨now', r', List.mem_cons_of_mem _ mem, rfl⟩
      · rintro ⟨now', r', mem, rfl⟩
        rcases List.mem_cons.1 mem with same | mem
        · cases same
          exact .inl rfl
        · exact .inr ⟨now', r', mem, rfl⟩

/-- A session breaks off at a report or at a frame that is drawn. -/
theorem calls?_eq_none_iff_texts : s.calls? sights = none ↔ none ∈ s.texts sights ∨
    ∃ now height r, .draw now height r ∈ sights ∧ s.frame? now height r = none := by
  rw [calls?_eq_none_iff, mem_texts_iff]
  constructor
  · rintro ⟨w, hw, unrendered⟩
    cases w with
    | draw now height r => exact .inr ⟨now, height, r, hw, Option.map_eq_none_iff.1 unrendered⟩
    | report now r => exact .inl ⟨now, r, hw, Option.map_eq_none_iff.1 unrendered⟩
  · rintro (⟨now, r, hw, unrendered⟩ | ⟨now, height, r, hw, unrendered⟩)
    · exact ⟨_, hw, Option.map_eq_none_iff.2 unrendered⟩
    · exact ⟨_, hw, Option.map_eq_none_iff.2 unrendered⟩

theorem draw_of_not_terminal (h : s.terminal = false) : s.draw x st = [] :=
  if_neg (by simp [h])

theorem not_draw_mem_turn (h : s.terminal = false) (t : Turn) (now : Timestamp) (height : Nat)
    (r : Run) : .draw now height r ∉ (s.turn x t st).2 := by
  have reports (x : Reading) (st : Standing) : .draw now height r ∉ (reportDue x st).2 := by
    simp [reportDue_snd]
  cases t with
  | batch events =>
    intro hw
    rcases List.mem_append.1 hw with hw | hw
    · exact reports _ _ hw
    · rw [draw_of_not_terminal h] at hw
      cases hw
  | tick =>
    rw [Session.turn, draw_of_not_terminal h]
    exact List.not_mem_nil
  | close => exact reports _ _

theorem not_draw_mem_run (h : s.terminal = false) (ts : List (Reading × Turn)) (now : Timestamp)
    (height : Nat) (r : Run) : .draw now height r ∉ (s.run st ts).2 := by
  induction ts generalizing st with
  | nil => exact List.not_mem_nil
  | cons t ts ih =>
    rw [Session.run, List.mem_append, not_or]
    exact ⟨not_draw_mem_turn h t.2 now height r, ih⟩

/-- Without a terminal a session breaks off at a report only. -/
theorem calls?_run_eq_none_iff (h : s.terminal = false) (ts : List (Reading × Turn)) :
    s.calls? (s.run st ts).2 = none ↔ none ∈ s.texts (s.run st ts).2 := by
  rw [calls?_eq_none_iff_texts, or_iff_left]
  rintro ⟨now, height, r, drawn, _⟩
  exact not_draw_mem_run h ts now height r drawn

/-- Every run is reported once, in the order of the ids, as it stands at the end: with its frame at
the clock reading of the last report, or at any if no run was left to be closed. Nothing is drawn
once the session is closed. A session with the same events at the same readings, in other batches,
with other ticks, and with or without a terminal, reports the same. -/
theorem runs_reported_once (s : Session) (ts : List (Reading × Turn)) (x : Reading)
    (going : ∀ t ∈ ts, t.2 ≠ .close) :
    let before := History.empty.pushAll s.mode (delivered ts)
    let final := before.finish s.mode (x.clock 0)
    let sights := (s.run start (ts ++ [(x, .close)])).2
    let frame? (now : Timestamp) := s.viewer.frame? ⟨now, s.mode.rate?⟩ s.width
    let text? (now : Timestamp) (r : Run) :=
      (frame? now Viewer.unlimited r).map fun frame => frame ++ '\n' :: '\n' :: s.reporter.text r
    (s.run start (ts ++ [(x, .close)])).1 = ⟨final, final.runs.length⟩ ∧
      final.runs.map Run.id = List.range' 1 final.runs.length ∧
      (∃ last : List (Timestamp × Run),
        sights = (s.run start ts).2 ++ last.map fun e => .report e.1 e.2) ∧
      (∀ d : Display, d.room = none → s.showAll? d sights = (s.calls? sights).map d.run ∧
        ∀ calls, (d.run calls).2 = true) ∧
      (∀ calls, s.calls? sights = some calls → ∀ now, now = x.clock 1 ∨ before.underWay? = none →
        (committed calls).map some = final.runs.map (text? now)) ∧
      (s.calls? sights = none ↔ (∃ r ∈ final.runs, text? (x.clock 1) r = none) ∨
        ∃ now height r, .draw now height r ∈ sights ∧ frame? now height r = none) ∧
      (s.terminal = false → ∀ now height r, .draw now height r ∉ sights) ∧
      ((∀ e ∈ delivered ts, e.2.Clean) → ∃ calls, s.calls? sights = some calls) ∧
      ∀ (terminal : Bool) (ts' : List (Reading × Turn)), (∀ t ∈ ts', t.2 ≠ .close) →
        delivered ts' = delivered ts →
        let s' : Session := { s with terminal }
        ∀ calls calls', s.calls? sights = some calls →
          s'.calls? (s'.run start (ts' ++ [(x, .close)])).2 = some calls' →
          committed calls' = committed calls := by
  intro before final sights frame? text?
  obtain ⟨standing, split, texts⟩ := run_close s ts x going
  have reachable : before.Reachable s.mode := History.Reachable.start.pushAll (delivered ts)
  have ids := (reachable.finish (x.clock 0)).ids
  refine ⟨standing, ids, split, ?_, ?_, ?_, ?_, ?_, ?_⟩
  · exact fun d room => ⟨showAll?_of_room room sights, Display.run_of_room room⟩
  · intro calls shown now hnow
    rw [map_some_committed shown, texts now hnow]
    rfl
  · rw [calls?_eq_none_iff_texts, texts (x.clock 1) (.inl rfl), List.mem_map]
    exact Iff.rfl
  · exact fun h => not_draw_mem_run h _
  · intro clean
    exact s.exists_calls?_of_clean ((delivered_close ts x).symm ▸ clean)
  · intro terminal ts' going' same s' calls calls' shown shown'
    obtain ⟨_, _, texts'⟩ := run_close s' ts' x going'
    apply committed_eq_of_texts_eq shown' shown
    rw [texts' (x.clock 1) (.inl rfl), texts (x.clock 1) (.inl rfl), same]
    rfl

/-- The first batch ends a run; closing ends another one. -/
theorem runs_reported_once_two_runs :
    let s : Session := ⟨.live, ⟨⟨false, false⟩, 3, .fixed⟩, ⟨⟨false, false⟩, .zero⟩, true, 80⟩
    let x : Reading := .still default 24
    let ts := [(x, .batch [⟨default, .pass, "a", "", "", none⟩]), (x, .tick),
      (x, .batch [⟨default, .run, "b", "T", "", none⟩])]
    let final := (History.empty.pushAll .live (delivered ts)).finish .live default
    final.runs.map Run.status = [.passed, .interrupted] ∧
      ∃ calls, s.calls? (s.run start (ts ++ [(x, .close)])).2 = some calls ∧
        (committed calls).map some = final.runs.map (s.report? default) := by
  intro s x ts final
  obtain ⟨_, _, _, _, reports, _⟩ := runs_reported_once s ts x (by simp [ts])
  have rendered : (s.calls? (s.run start (ts ++ [(x, .close)])).2).isSome := by decide +kernel
  obtain ⟨calls, shown⟩ := Option.isSome_iff_exists.1 rendered
  exact ⟨by decide, calls, shown, reports calls shown default (.inl rfl)⟩

/-- A session ends one run, and closing finds none under way. But the label of its package is cut
to four columns where it is given two, so that the session breaks off and nothing is committed. -/
theorem no_report_of_wide_label :
    let s : Session :=
      ⟨.live, ⟨⟨false, false⟩, 6, .heuristic⟩, ⟨⟨false, false⟩, .zero⟩, false, 17⟩
    let x : Reading := .still default 24
    let ts := [(x, .batch [⟨default, .output, "p", "", "\x1b77777\n", none⟩,
      ⟨default, .pass, "p", "", "", none⟩])]
    let final := (History.empty.pushAll .live (delivered ts)).finish .live default
    final.runs.map Run.status = [.passed] ∧
      s.showAll? (.start false none) (s.run start (ts ++ [(x, .close)])).2 = none := by
  decide +kernel

end Session
end TestWatch
