import TestWatch.Proofs.Frame.Fits
import TestWatch.Session.Live

/-!
# What a session shows

A display that takes everything is called once for each sight, unless one of them cannot be
rendered. What is shown is of runs that the events made, as far as they go, or of one that was
closed, so a session of clean events breaks off at none of them, in every size of the terminal.
-/

namespace TestWatch

namespace Display

theorem write_of_room {d : Display} (h : d.room = none) (cs : List Char) :
    (d.write cs).1.room = none ∧ (d.write cs).2 = true := by
  simp [write, h]

theorem clear_of_room {d : Display} (h : d.room = none) :
    d.clear.1.room = none ∧ d.clear.2 = true := by
  obtain ⟨room, done⟩ := write_of_room h (clearing d.rows)
  unfold clear
  by_cases hr : d.rows = 0
  · simp [hr, h]
  · simp [hr, room, done]

theorem call_of_room {d : Display} (h : d.room = none) (c : Call) :
    (d.call c).1.room = none ∧ (d.call c).2 = true := by
  obtain ⟨room, done⟩ := clear_of_room h
  cases c with
  | draw frame =>
    obtain ⟨room', done'⟩ := write_of_room room frame
    cases ht : d.terminal <;> simp [call, draw, ht, h, done, room', done']
  | commit text =>
    obtain ⟨room', done'⟩ := write_of_room room (closed text)
    simp [call, commit, done, room', done']

/-- A sink without a limit takes all that a session shows. -/
theorem run_of_room {d : Display} (h : d.room = none) (calls : List Call) :
    (d.run calls).2 = true := by
  induction calls generalizing d with
  | nil => rfl
  | cons c cs ih =>
    obtain ⟨room, done⟩ := call_of_room h c
    simpa [run, done] using ih room

end Display

namespace Session

variable {s : Session}

/-- What a display is told that takes everything. -/
def calls? (s : Session) (ws : List Sight) : Option (List Call) := ws.mapM s.call?

/-- Such a display is told all of it, or the session breaks off. -/
theorem showAll?_of_room {d : Display} (room : d.room = none) (ws : List Sight) :
    s.showAll? d ws = (s.calls? ws).map d.run := by
  induction ws generalizing d with
  | nil => rfl
  | cons w ws ih =>
    rw [showAll?, calls?, List.mapM_cons]
    cases s.call? w with
    | none => rfl
    | some c =>
      obtain ⟨room', done⟩ := Display.call_of_room room c
      have rest := ih room'
      rw [calls?] at rest
      simp only [done, ↓reduceIte, rest]
      cases ws.mapM s.call? with
      | none => rfl
      | some cs => simp [Display.run, done]

theorem calls?_eq_none_iff {ws : List Sight} :
    s.calls? ws = none ↔ ∃ w ∈ ws, s.call? w = none :=
  mapM_eq_none_iff

/-- The events of a turn, each with the clock reading at which it is taken. -/
def eventsOf : Reading × Turn → List (Timestamp × TestEvent)
  | (x, .batch events) => events.mapIdx fun i e => (x.clock i, e)
  | (_, .tick) | (_, .close) => []

def delivered (ts : List (Reading × Turn)) : List (Timestamp × TestEvent) := ts.flatMap eventsOf

theorem delivered_close (ts : List (Reading × Turn)) (x : Reading) :
    delivered (ts ++ [(x, .close)]) = delivered ts := by
  simp [delivered, eventsOf]

theorem run_append (s : Session) (st : Standing) (ts us : List (Reading × Turn)) :
    s.run st (ts ++ us) =
      ((s.run (s.run st ts).1 us).1, (s.run st ts).2 ++ (s.run (s.run st ts).1 us).2) := by
  induction ts generalizing st with
  | nil => rfl
  | cons t ts ih => simp [Session.run, ih]

end Session

section Texts

variable {Q : List Char → Prop}

theorem Run.Texts.close {r : Run} (h : r.Texts Q) (mode : Mode) (now : Timestamp) :
    (r.close mode now).Texts Q := by
  refine ⟨Table.forall_get?_mapValues fun n p hp => ?_, h.tests, h.loose⟩
  unfold Run.cutOff
  split
  · exact h.packages n p hp
  · exact h.packages n p hp

/-- All runs of a history hold texts with `Q` only. -/
structure History.Texts (Q : List Char → Prop) (h : History) : Prop where
  ordered : h.Ordered
  runs : ∀ r ∈ h.runs, r.Texts Q

theorem History.Texts.pushAll {h : History} (ht : h.Texts Q) (mode : Mode)
    {events : List (Timestamp × TestEvent)} (he : ∀ e ∈ events, e.2.Texts Q) :
    (h.pushAll mode events).Texts Q :=
  ⟨ht.ordered.pushAll events, ht.ordered.forall_pushAll (fun _ _ _ => Run.each_first _ _ _)
    (fun e hm _ _ hr => Run.Each.push ((he e hm).keeps e.1) hr mode) ht.runs⟩

theorem History.Texts.finish {h : History} (ht : h.Texts Q) (mode : Mode) (now : Timestamp) :
    (h.finish mode now).Texts Q :=
  ⟨ht.ordered.finish now,
    ht.ordered.forall_finish (fun now _ _ hr => hr.close mode now) ht.runs now⟩

theorem History.mem_of_underWay? {h : History} {r : Run} (hu : h.underWay? = some r) :
    r ∈ h.runs := by
  obtain ⟨i, _, hi⟩ := Option.bind_eq_some_iff.1 hu
  exact List.mem_of_getElem? hi

/-- The run that is shown. -/
def Sight.run : Sight → Run
  | draw _ _ r | report _ r => r

namespace Session

variable {s : Session} {x : Reading} {t : Turn} {st : Standing} {w : Sight}

theorem texts_turn (h : st.history.Texts Q) (texts : ∀ e ∈ eventsOf (x, t), e.2.Texts Q) :
    (s.turn x t st).1.history.Texts Q := by
  cases t with
  | batch events => exact h.pushAll s.mode texts
  | tick => exact h
  | close => exact h.finish s.mode _

theorem mem_runs_of_mem_reportDue (h : w ∈ (reportDue x st).2) : w.run ∈ st.history.runs := by
  obtain ⟨i, hi, rfl⟩ := List.mem_mapIdx.1 h
  have due : (due st)[i] ∈ due st := List.getElem_mem hi
  exact List.mem_of_mem_drop ((List.takeWhile_sublist _).mem due)

theorem mem_runs_of_mem_draw (h : w ∈ s.draw x st) : w.run ∈ st.history.runs := by
  unfold draw at h
  split at h
  · obtain ⟨r, hr, rfl⟩ := Option.map_eq_some_iff.1 (Option.mem_toList.1 h)
    exact History.mem_of_underWay? hr
  · cases h

/-- A turn shows runs as they are once it is over. -/
theorem mem_runs_of_mem_turn (h : w ∈ (s.turn x t st).2) :
    w.run ∈ (s.turn x t st).1.history.runs := by
  cases t with
  | batch events =>
    rcases List.mem_append.1 h with h | h
    · have reported := mem_runs_of_mem_reportDue h
      exact reported
    · have drawn := mem_runs_of_mem_draw h
      exact drawn
  | tick => exact mem_runs_of_mem_draw h
  | close =>
    have reported := mem_runs_of_mem_reportDue (x := x.later 1) h
    exact reported

theorem texts_of_mem_run (h : st.history.Texts Q) {ts : List (Reading × Turn)}
    (texts : ∀ e ∈ delivered ts, e.2.Texts Q) (hw : w ∈ (s.run st ts).2) : w.run.Texts Q := by
  induction ts generalizing st with
  | nil => cases hw
  | cons t ts ih =>
    rw [delivered, List.flatMap_cons, List.forall_mem_append] at texts
    have after := texts_turn (s := s) h texts.1
    rcases List.mem_append.1 hw with hw | hw
    · exact after.runs _ (mem_runs_of_mem_turn hw)
    · exact ih after texts.2 hw

theorem exists_call?_of_texts (h : w.run.Texts (Text.Clean Text.Plain)) :
    ∃ c, s.call? w = some c := by
  cases w with
  | draw now height r =>
    obtain ⟨_, shown⟩ := s.viewer.exists_frame?_of_texts ⟨now, s.mode.rate?⟩ s.width h height
    exact ⟨_, congrArg (Option.map _) shown⟩
  | report now r =>
    obtain ⟨_, shown⟩ :=
      s.viewer.exists_frame?_of_texts ⟨now, s.mode.rate?⟩ s.width h Viewer.unlimited
    exact ⟨_, congrArg (Option.map _) (congrArg (Option.map _) shown)⟩

/-- A session of clean events breaks off at no frame. -/
theorem exists_calls?_of_clean (s : Session) {ts : List (Reading × Turn)}
    (clean : ∀ e ∈ delivered ts, e.2.Clean) : ∃ calls, s.calls? (s.run start ts).2 = some calls := by
  have none_yet : start.history.Texts (Text.Clean Text.Plain) :=
    ⟨.idle (by simp), by simp [start]⟩
  rw [← Option.ne_none_iff_exists', ne_eq, calls?_eq_none_iff]
  rintro ⟨w, hw, unrendered⟩
  have texts := texts_of_mem_run none_yet (fun e he => (clean e he).texts) hw
  obtain ⟨c, rendered⟩ := exists_call?_of_texts (s := s) texts
  rw [unrendered] at rendered
  cases rendered

end Session

end Texts

end TestWatch
