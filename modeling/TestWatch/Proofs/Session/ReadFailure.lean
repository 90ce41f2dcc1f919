import TestWatch.Proofs.Session.Reports
import TestWatch.Proofs.Stream.Failure
import TestWatch.Session.Schedule

/-!
# Sessions whose input breaks off

When reading fails, what was read before is still handed over, shown and reported; the failure
comes out after that. So such a session does all that the session over the whole lines does, and
ends with the failure in place of an outcome.
-/

namespace TestWatch

namespace Pipe

variable {p : Pipe} {source : String} {raw : Option RawOutput}

theorem rawFault?_of_accepted (accepted : ∀ r ∈ raw, r.fault = none) : p.rawFault? raw = none := by
  unfold rawFault?
  split
  · rename_i path cause
    cases accepted _ rfl
  · rfl

theorem result_of_failed (accepted : ∀ r ∈ raw, r.fault = none) (finished : p.phase = .finished)
    {cause : String} (failed : p.ending = .failed cause) :
    p.result source raw = .error (.inputRead source cause) := by
  simp [result, rawFault?_of_accepted accepted, inputFault?, finished, failed]

theorem result_of_complete (accepted : ∀ r ∈ raw, r.fault = none)
    (complete : p.ending = .complete) : p.result source raw = .ok ⟨p.events, p.rawLines.length⟩ := by
  simp [result, rawFault?_of_accepted accepted, inputFault?, complete]

end Pipe

namespace Session

/-- A display that takes everything shows all turns, unless the session breaks off, and then the
reader says what it came to. -/
theorem perform?_of_room (s : Session) {c : Connections} (room : c.display.room = none) (pipe : Pipe)
    (signalled : Bool) (clock : Nat → Timestamp) (moments : List Moment) :
    let run := s.run start (onClock clock c.height moments)
    s.perform? c pipe signalled clock moments = (s.calls? run.2).map fun calls =>
      ⟨(pipe.result c.source c.raw).map fun _ => Outcome.ofHistory run.1.history signalled,
        (c.display.run calls).1, pipe.rawText⟩ := by
  intro run
  simp only [perform?, showAll?_of_room room, Option.map_map]
  apply Option.map_congr
  intro calls _
  simp only [Function.comp_apply, Display.run_of_room room calls, ↓reduceIte]
  rfl

/-- A stream that has been handed over to its end, in the turns of a session. -/
structure Course (pacing : Pacing) (f : Feed) where
  last : Exchange
  steps : Exchange.Steps pacing ⟨Pipe.ofFeed f, []⟩ last
  ended : last.Over
  turns : List (Reading × Turn)
  going : ∀ t ∈ turns, t.2 ≠ .close
  taken : (delivered turns).map Prod.snd = last.taken

namespace Course

variable {pacing : Pacing} {f : Feed}

def times (a : Course pacing f) : List Timestamp := (delivered a.turns).map Prod.fst

def closed (a : Course pacing f) (closing : Reading) : List (Reading × Turn) :=
  a.turns ++ [(closing, .close)]

theorem stored_last (a : Course pacing f) : a.last.pipe.stored = a.last.pipe.rawText := by
  simp [Pipe.stored, a.ended.1]

variable {pacing' : Pacing} {f' : Feed} {a : Course pacing f} {b : Course pacing' f'}

theorem delivered_eq (taken : a.last.taken = b.last.taken) (times : a.times = b.times) :
    delivered a.turns = delivered b.turns := by
  have of_a : delivered a.turns = b.times.zip b.last.taken :=
    List.zip_of_prod times (a.taken.trans taken)
  have of_b : delivered b.turns = b.times.zip b.last.taken := List.zip_of_prod rfl b.taken
  rw [of_a, of_b]

/-- Sessions that take the same events at the same readings come to the same runs and reports. -/
theorem run_closed_eq (same : delivered a.turns = delivered b.turns) (s : Session)
    (closing : Reading) :
    (s.run start (a.closed closing)).1 = (s.run start (b.closed closing)).1 ∧
      s.texts (s.run start (a.closed closing)).2 = s.texts (s.run start (b.closed closing)).2 := by
  obtain ⟨standing, _, reports⟩ := run_close s a.turns closing a.going
  obtain ⟨standing', _, reports'⟩ := run_close s b.turns closing b.going
  constructor
  · rw [closed, closed, standing, standing', same]
  · rw [closed, closed, reports (closing.clock 1) (.inl rfl), reports' (closing.clock 1) (.inl rfl),
      same]

theorem exists_calls?_of_clean (a : Course pacing f) (clean : ∀ e ∈ a.last.taken, e.Clean)
    (s : Session) (closing : Reading) :
    ∃ calls, s.calls? (s.run start (a.closed closing)).2 = some calls := by
  apply s.exists_calls?_of_clean
  rw [closed, delivered_close, ← List.forall_mem_map, a.taken]
  exact clean

end Course

/-- The reader of an input that breaks off comes to the same as one of the whole lines. -/
theorem Course.broken_off {pacing pacing' : Pacing} (accepted : pacing.rawRefused = false)
    (accepted' : pacing'.rawRefused = false) {bs : List UInt8} {cause : String}
    {block block' : Option Nat} (a : Course pacing ⟨bs, .failed cause, block⟩)
    (b : Course pacing' ⟨Feed.wholeLines bs, .complete, block'⟩) :
    let whole : Feed := ⟨Feed.wholeLines bs, .complete, block'⟩
    b.last.taken = whole.lines.filterMap Line.event? ∧ a.last.taken = b.last.taken ∧
      a.last.pipe.rawLines = b.last.pipe.rawLines ∧
      a.last.pipe.ending = .failed cause ∧ b.last.pipe.ending = .complete := by
  obtain ⟨taken, rawLines, _, ending⟩ := a.steps.of_over (by simp) accepted a.ended
  obtain ⟨taken', rawLines', _, ending'⟩ := b.steps.of_over (by simp) accepted' b.ended
  have lines := Feed.lines_of_failed bs cause block block'
  refine ⟨taken', ?_, ?_, ending, ending'⟩
  · rw [taken, taken', lines]
  · rw [rawLines, rawLines', lines]

/-- A session whose input breaks off takes the events, commits the texts, and leaves the raw lines,
of the session over the lines that had arrived in full, and ends with the failure where that one has
an outcome. It is so for any capacity and pacing, in whatever blocks the input comes, in whatever
order reader and receiver take their steps and events and ticks make up turns, if only the clock
readings are the same; and short of the end there is always a step, and each brings the end
nearer. Either session may break off at a frame that cannot be rendered: without a terminal both do
or neither does, and sessions of clean events do not. -/
theorem read_failure_costs_unfinished_line (s : Session) (bytes : List UInt8) (k : Nat)
    (cause : String) (path : Option String) (block block' : Option Nat) (pacing pacing' : Pacing) :
    let failing : Feed := ⟨bytes.take k, .failed cause, block⟩
    let whole : Feed := ⟨Feed.wholeLines (bytes.take k), .complete, block'⟩
    let raw := path.map fun path => (⟨path, none⟩ : RawOutput)
    (∀ x, Exchange.Steps (pacing.writingTo raw) ⟨Pipe.ofFeed failing, []⟩ x →
      (x.Over ∨ ∃ y, Exchange.Step (pacing.writingTo raw) x y) ∧
        ∀ y, Exchange.Step (pacing.writingTo raw) x y → y.effort < x.effort) ∧
    ∀ (a : Course (pacing.writingTo raw) failing) (b : Course (pacing'.writingTo raw) whole)
      (closing : Reading), a.times = b.times →
      let broken := s.run start (a.closed closing)
      let ended := s.run start (b.closed closing)
      (a.last.taken = b.last.taken ∧ b.last.taken = whole.lines.filterMap Line.event?) ∧
      broken.1 = ended.1 ∧
      (∀ calls calls', s.calls? broken.2 = some calls → s.calls? ended.2 = some calls' →
        committed calls = committed calls') ∧
      (s.terminal = false → (s.calls? broken.2 = none ↔ s.calls? ended.2 = none)) ∧
      ((∀ e ∈ b.last.taken, e.Clean) →
        (∃ calls, s.calls? broken.2 = some calls) ∧ ∃ calls, s.calls? ended.2 = some calls) ∧
      (a.last.pipe.stored = b.last.pipe.stored ∧
        (Spool.ofLines a.last.pipe.rawLines).spill.given = b.last.pipe.stored) ∧
      (∀ source, a.last.pipe.result source raw = .error (.inputRead source cause) ∧
        ∃ tally, b.last.pipe.result source raw = .ok tally) ∧
      ∀ c clock moments moments', c.raw = raw → c.display.room = none →
        onClock clock c.height moments = a.closed closing →
        onClock clock c.height moments' = b.closed closing →
        (s.perform? c a.last.pipe false clock moments = (s.calls? broken.2).map fun calls =>
          ⟨.error (.inputRead c.source cause), (c.display.run calls).1, b.last.pipe.stored⟩) ∧
        s.perform? c b.last.pipe false clock moments' = (s.calls? ended.2).map fun calls =>
          ⟨.ok (.ofHistory ended.1.history false), (c.display.run calls).1,
            b.last.pipe.stored⟩ := by
  intro failing whole raw
  have accepts : ∀ r ∈ raw, r.fault = none := by
    cases path <;> simp [raw]
  have accepted (pacing : Pacing) : (pacing.writingTo raw).rawRefused = false := by
    cases path <;> rfl
  constructor
  · intro x run
    exact ⟨run.over_or_step (by simp [failing]) (accepted pacing),
      fun y => Exchange.Step.effort_lt⟩
  · intro a b closing times broken ended
    obtain ⟨events, taken, rawLines, failed, complete⟩ :=
      a.broken_off (accepted pacing) (accepted pacing') b
    -- From here on only the reader's result tells the two sessions apart.
    obtain ⟨standing, texts⟩ := Course.run_closed_eq (Course.delivered_eq taken times) s closing
    have rawText : a.last.pipe.rawText = b.last.pipe.rawText := by
      rw [Pipe.rawText, Pipe.rawText, rawLines]
    have result (source : String) :
        a.last.pipe.result source raw = .error (.inputRead source cause) :=
      Pipe.result_of_failed accepts a.ended.1 failed
    have result' (source : String) : b.last.pipe.result source raw =
        .ok ⟨b.last.pipe.events, b.last.pipe.rawLines.length⟩ :=
      Pipe.result_of_complete accepts complete
    refine ⟨⟨taken, events⟩, standing, ?_, ?_, ?_, ⟨?_, ?_⟩,
      fun source => ⟨result source, _, result' source⟩, ?_⟩
    · exact fun calls calls' shown shown' => committed_eq_of_texts_eq shown shown' texts
    · intro no_terminal
      rw [calls?_run_eq_none_iff no_terminal, calls?_run_eq_none_iff no_terminal, texts]
    · intro clean
      exact ⟨a.exists_calls?_of_clean (taken.symm ▸ clean) s closing,
        b.exists_calls?_of_clean clean s closing⟩
    · rw [a.stored_last, b.stored_last, rawText]
    · rw [Spool.given_spill_ofLines, rawLines, b.stored_last]
      rfl
    · intro c clock moments moments' to_raw room turns turns'
      constructor
      · rw [s.perform?_of_room room, turns, to_raw, result, b.stored_last, rawText]
        rfl
      · rw [s.perform?_of_room room, turns', to_raw, result', b.stored_last]
        rfl

/-- Reading fails within the second event, after a line of another kind. The first event ends a run
that is reported, and the line is stored. -/
theorem read_failure_costs_unfinished_line_torn_event :
    let line := "\x7b\"Time\":\"2024-01-02T03:04:05Z\",\"Action\":\"pass\",\"Package\":\"a\"\x7d\n"
    let bytes := (line ++ "more\n" ++ line).toUTF8.toList
    let s : Session := ⟨.live, ⟨⟨false, false⟩, 3, .fixed⟩, ⟨⟨false, false⟩, .zero⟩, true, 80⟩
    let failing : Feed := ⟨bytes.take 100, .failed "gone", some 16⟩
    let whole : Feed := ⟨Feed.wholeLines (bytes.take 100), .complete, none⟩
    let pacing := Pacing.writingTo (some ⟨"raw", none⟩) ⟨none, 0, false⟩
    let x : Reading := .still default 24
    ∃ (a : Course pacing failing) (b : Course pacing whole), a.times = b.times ∧
      b.last.taken = [⟨⟨1704164645, 0, 0⟩, .pass, "a", "", "", none⟩] ∧
      (∃ calls calls', s.calls? (s.run start (a.closed x)).2 = some calls ∧
        s.calls? (s.run start (b.closed x)).2 = some calls' ∧
        committed calls = committed calls') ∧
      a.last.pipe.stored = "more\n" ∧
      a.last.pipe.result "input" (some ⟨"raw", none⟩) = .error (.inputRead "input" "gone") := by
  intro line bytes s failing whole pacing x
  let e : TestEvent := ⟨⟨1704164645, 0, 0⟩, .pass, "a", "", "", none⟩
  let last (f : Feed) : Exchange :=
    ⟨((Pipe.ofFeed f).deliveries pacing none 0).2,
      [] ++ ((Pipe.ofFeed f).deliveries pacing none 0).1.flatMap Delivery.events⟩
  have steps (f : Feed) : Exchange.Steps pacing ⟨Pipe.ofFeed f, []⟩ (last f) :=
    Exchange.steps_deliveries none 0 _ []
  have broken : (last failing).Over ∧ [e] = (last failing).taken := by decide +kernel
  have ended : (last whole).Over ∧ [e] = (last whole).taken ∧
      (last whole).pipe.stored = "more\n" := by decide +kernel
  let a : Course pacing failing :=
    ⟨_, steps failing, broken.1, [(x, .tick), (x, .batch [e])], by simp, broken.2⟩
  let b : Course pacing whole :=
    ⟨_, steps whole, ended.1, [(x, .batch [e]), (x, .tick)], by simp, ended.2.1⟩
  obtain ⟨_, same⟩ := read_failure_costs_unfinished_line s bytes 100 "gone" (some "raw") (some 16)
    none ⟨none, 0, false⟩ ⟨none, 0, false⟩
  obtain ⟨_, _, texts, _, rendered, ⟨stored, _⟩, results, _⟩ := same a b x rfl
  have clean : ∀ e ∈ b.last.taken, e.Clean := by
    rw [show b.last.taken = [e] from ended.2.1.symm, List.forall_mem_singleton]
    exact ⟨.of_all (by decide), .of_all (by decide), .of_all (by decide)⟩
  obtain ⟨⟨calls, shown⟩, calls', shown'⟩ := rendered clean
  exact ⟨a, b, rfl, ended.2.1.symm, ⟨calls, calls', shown, shown', texts calls calls' shown shown'⟩,
    stored.trans ended.2.2, (results "input").1⟩

/-- Reading fails after an event that names a package. But the name is cut to four columns where it
is given two, so that the session breaks off with neither a text nor the failure. -/
theorem no_failure_of_wide_name :
    let line := "\x7b\"Time\":\"2024-01-02T03:04:05Z\",\"Action\":\"start\"," ++
      "\"Package\":\"\\u001b77777\"\x7d\n"
    let s : Session :=
      ⟨.live, ⟨⟨false, false⟩, 6, .heuristic⟩, ⟨⟨false, false⟩, .zero⟩, false, 17⟩
    let (ds, pipe) :=
      (Pipe.ofFeed ⟨line.toUTF8.toList, .failed "gone", none⟩).deliveries ⟨none, 0, false⟩ none 0
    ds.flatMap Delivery.events = [⟨⟨1704164645, 0, 0⟩, .start, "\x1b77777", "", "", none⟩] ∧
      (s.perform? ⟨"input", none, .start false none, 24, ""⟩ pipe false (fun _ => default)
        (schedule (.ofMillis 1000) ds pipe.stored)).isNone := by
  decide +kernel

end Session

end TestWatch
