import TestWatch.Proofs.Stream.Exchange

/-!
# Counted and handed over

An event is counted when the reader begins to hand it over. The receiver may go at any moment, and
it may tell the reader to stop wherever it is. So the count is that of the events that the queue
took, and one more if the reader was stopped while it held out an event.
-/

namespace TestWatch

namespace Pipe

def Stopped (p : Pipe) : Prop := p.phase = .finished ∨ p.phase = .stuck ∨ p.phase = .abandoned

variable {lines : List Line} {handed : List TestEvent} {p : Pipe}

theorem received_read (pacing : Pacing) (p : Pipe) (a : Arrival) :
    (p.read pacing a).received = p.received := by
  rcases read_cases pacing p a with ⟨_, read⟩ | ⟨_, _, _, _, read⟩ | ⟨_, _, read⟩ | ⟨_, _, _, read⟩
  all_goals simp [read, offer]

theorem read_ne_abandoned (pacing : Pacing) (p : Pipe) (a : Arrival) :
    (p.read pacing a).phase ≠ .abandoned := by
  rcases read_cases pacing p a with ⟨_, read⟩ | ⟨_, _, _, rfl | ⟨rfl, _⟩, read⟩ | ⟨_, _, read⟩ |
      ⟨_, _, _, read⟩
  all_goals
    rw [read]
    simp [offer]

/-- What is queued has no part in reading. -/
theorem drain_read (pacing : Pacing) (p : Pipe) (a : Arrival) :
    (p.read pacing a).drain = p.drain.read pacing a := by
  cases a with
  | wait => rfl
  | line l =>
    cases l with
    | raw text => rfl
    | event e =>
      simp only [Pipe.read]
      split <;> simp_all [drain, offer]

theorem drain_wake (p : Pipe) : p.wake.drain = p.drain.wake := by
  cases phase : p.phase <;> simp [wake, drain, offer, phase]

theorem drain_resume (p : Pipe) : p.resume.drain = p.drain.resume := by
  cases phase : p.phase <;> simp [resume, drain, phase]

@[simp] theorem queue_drain (p : Pipe) : p.drain.queue = [] := rfl

@[simp] theorem inHand_drain (p : Pipe) : p.drain.inHand = p.inHand := rfl

@[simp] theorem linesAhead_drain (p : Pipe) : p.drain.linesAhead = p.linesAhead := rfl

theorem offered_cases (p : Pipe) :
    (p.offered = [] ∨ ∃ e, p.offered = [e]) ∧ p.offered <+: p.inHand := by
  cases phase : p.phase <;> simp [inHand, offered, phase]

/-- A reader that has stopped by itself stays as it is. -/
theorem cancel_cases (p : Pipe) :
    (p.cancel = p.hangUp ∧ p.offered = []) ∨ p.cancel = { p.hangUp with phase := .abandoned } := by
  cases phase : p.phase <;> simp [cancel, offered, phase]

theorem received_cancel (p : Pipe) : p.cancel.received = false := by
  cases phase : p.phase <;> simp [cancel, hangUp, phase]

theorem Accounts.stopped (h : p.drain.Accounts lines handed) :
    p.events = handed.length + p.offered.length ∧
      handed ++ p.offered <+: lines.filterMap Line.event? := by
  obtain ⟨events, _, counted⟩ := h
  simp only [queue_drain, inHand_drain, linesAhead_drain, List.append_nil] at events
  refine ⟨counted, ?_⟩
  rw [← events]
  exact ((List.prefix_append_right_inj handed).2 p.offered_cases.2).trans (List.prefix_append _ _)

theorem events_of_result {source : String} {raw : Option RawOutput} {tally : Tally}
    (h : p.result source raw = .ok tally) : tally.events = p.events := by
  unfold result at h
  split at h
  · cases h
  · cases h
    rfl

end Pipe

/-- What the receiver has and finds in the queue is all that has come there. -/
theorem Exchange.Step.flow {pacing : Pacing} {x y : Exchange} (h : Exchange.Step pacing x y) :
    y.pipe.received = x.pipe.received ∧
      x.taken ++ x.pipe.queue ++ y.pipe.queue.drop x.pipe.queue.length =
        y.taken ++ y.pipe.queue := by
  cases h with
  | @advance p q taken hq =>
    rcases Pipe.advance?_cases hq with ⟨a, rest, _, _, rfl⟩ | ⟨_, _, rfl⟩ | ⟨e, _, _, rfl⟩ |
        ⟨e, _, _, rfl⟩
    · simp [Pipe.queue_read, Pipe.received_read]
    · simp
    · simp
    · simp
  | @wake p d e taken phase => simp [Pipe.wake, phase, Pipe.offer]
  | @resume p taken changed =>
    rcases Pipe.resume_cases changed with ⟨_, resumed⟩ | ⟨e, _, _, resumed⟩
    · simp [resumed]
    · simp [resumed]
  | @receive p e rest taken queued => simp [queued]

/-- A reader and its receiver, the events that the queue has taken, and the one that the reader
held out in vain. -/
structure HandOff where
  exchange : Exchange
  handed : List TestEvent
  refused : List TestEvent

namespace HandOff

def pipe (x : HandOff) : Pipe := x.exchange.pipe

def start (f : Feed) : HandOff := ⟨⟨Pipe.ofFeed f, []⟩, [], []⟩

/-- After a step of reader and receiver. What it adds to the queue has been handed over, and a reader
that gives up at it leaves behind what it held out. -/
def after (x : HandOff) (y : Exchange) : HandOff where
  exchange := y
  handed := x.handed ++ y.pipe.queue.drop x.pipe.queue.length
  refused := x.refused ++ if y.pipe.phase = .abandoned then x.pipe.offered else []

def hangUp (x : HandOff) : HandOff := { x with exchange := ⟨x.pipe.hangUp, x.exchange.taken⟩ }

def cancel (x : HandOff) : HandOff where
  exchange := ⟨x.pipe.cancel, x.exchange.taken⟩
  handed := x.handed
  refused := x.refused ++ x.pipe.offered

/-- Reader and receiver take their steps in any order. At any moment the receiver may go, and the
reader may be told to stop. -/
inductive Step (pacing : Pacing) : HandOff → HandOff → Prop
  | move {x : HandOff} {y : Exchange} :
      Exchange.Step pacing x.exchange y → Step pacing x (x.after y)
  | hangUp (x : HandOff) : Step pacing x x.hangUp
  | cancel (x : HandOff) : Step pacing x x.cancel

def Steps (pacing : Pacing) : HandOff → HandOff → Prop := Relation.ReflTransGen (Step pacing)

/-- Short of a stop, every event that was counted is handed over or held out. -/
structure Going (lines : List Line) (x : HandOff) : Prop where
  phase : x.pipe.phase ≠ .abandoned
  refused : x.refused = []
  accounts : x.pipe.drain.Accounts lines x.handed

/-- A reader that was stopped has counted what it handed over, and what was refused. -/
structure Abandoned (lines : List Line) (x : HandOff) : Prop where
  phase : x.pipe.phase = .abandoned
  counted : x.pipe.events = x.handed.length + x.refused.length
  single : x.refused = [] ∨ ∃ e, x.refused = [e]
  front : x.handed ++ x.refused <+: lines.filterMap Line.event?

structure Sound (lines : List Line) (x : HandOff) : Prop where
  books : x.Going lines ∨ x.Abandoned lines
  /-- A receiver that is there has what was handed over, or finds it in the queue. -/
  queued : x.pipe.received = true → x.handed = x.exchange.taken ++ x.pipe.queue

section Step

variable {pacing : Pacing} {lines : List Line} {x y : HandOff}

theorem sound_start (f : Feed) : (start f).Sound f.lines :=
  ⟨.inl ⟨by simp [start, pipe, Pipe.ofFeed], rfl, Pipe.accounts_ofFeed f⟩, fun _ => rfl⟩

/-- A step that neither adds to the queue nor stops the reader. -/
theorem Going.of_accounts {y : Exchange} (h : x.Going lines) (going : y.pipe.phase ≠ .abandoned)
    (short : y.pipe.queue.length ≤ x.pipe.queue.length)
    (accounts : y.pipe.drain.Accounts lines x.handed) : (x.after y).Going lines := by
  have same : (x.after y).handed = x.handed := by
    rw [after, List.drop_eq_nil_of_le short, List.append_nil]
  refine ⟨going, ?_, same.symm ▸ accounts⟩
  rw [after, if_neg going, List.append_nil]
  exact h.refused

/-- The reader hands over what it holds out, unless there is no receiver. -/
theorem Going.advance {q : Pipe} (h : x.Going lines) (hq : x.pipe.advance? pacing = some q) :
    (x.after ⟨q, x.exchange.taken⟩).Going lines ∨
      (x.after ⟨q, x.exchange.taken⟩).Abandoned lines := by
  obtain ⟨⟨p, taken⟩, handed, refused⟩ := x
  obtain rfl : refused = [] := h.refused
  have accounts : p.drain.Accounts lines handed := h.accounts
  change p.advance? pacing = some q at hq
  rcases Pipe.advance?_cases hq with ⟨a, rest, phase, ahead, rfl⟩ | ⟨phase, ahead, rfl⟩ |
      ⟨e, phase, _, rfl⟩ | ⟨e, phase, _, rfl⟩
  · have read : ({ p.drain with ahead := rest }.read pacing a).Accounts lines handed :=
      accounts.read phase ahead
    left
    apply h.of_accounts
    · exact Pipe.read_ne_abandoned pacing { p with ahead := rest } a
    · exact Nat.le_of_eq (congrArg List.length (Pipe.queue_read { p with ahead := rest } a))
    · exact (Pipe.drain_read pacing { p with ahead := rest } a).symm ▸ read
  · obtain ⟨events, rawLines, counted⟩ := accounts
    simp only [Pipe.drain, Pipe.inHand, Pipe.offered, phase] at events counted
    left
    apply h.of_accounts
    · simp
    · exact Nat.le_refl _
    · exact ⟨events, rawLines, counted⟩
  · obtain ⟨counted, front⟩ := accounts.stopped
    right
    simp only [after, pipe, if_true, List.drop_length, List.append_nil, List.nil_append]
    exact ⟨rfl, counted, p.offered_cases.1, front⟩
  · obtain ⟨events, rawLines, counted⟩ := accounts
    simp only [Pipe.drain, Pipe.inHand, Pipe.offered, phase] at events counted
    left
    refine ⟨by simp [after, pipe], by simp [after, pipe], ?_, rawLines, ?_⟩
    · simpa [after, pipe, Pipe.drain, Pipe.inHand, Pipe.linesAhead] using events
    · simpa [after, pipe, Pipe.drain, Pipe.offered] using counted

theorem Going.move {y : Exchange} (h : x.Going lines) (hy : Exchange.Step pacing x.exchange y) :
    (x.after y).Going lines ∨ (x.after y).Abandoned lines := by
  obtain ⟨x, handed, refused⟩ := x
  have going : x.pipe.phase ≠ .abandoned := h.phase
  have accounts : x.pipe.drain.Accounts lines handed := h.accounts
  cases hy with
  | advance hq => exact h.advance hq
  | @wake p d e taken phase =>
    have woken : p.wake = { p with stretch := Pipe.longestStretch - 1 }.offer e := by
      simp [Pipe.wake, phase]
    left
    apply h.of_accounts
    · simp [woken, Pipe.offer]
    · simp [woken, Pipe.offer, pipe]
    · exact p.drain_wake ▸ accounts.wake phase
  | @resume p taken changed =>
    left
    apply h.of_accounts
    · rcases Pipe.resume_cases changed with ⟨_, resumed⟩ | ⟨e, _, _, resumed⟩
      · simp [resumed]
      · rw [resumed]
        exact going
    · rcases Pipe.resume_cases changed with ⟨_, resumed⟩ | ⟨e, _, _, resumed⟩
      · simp [resumed, pipe]
      · simp [resumed, pipe]
    · exact p.drain_resume ▸ accounts.resume
  | @receive p e rest taken queued =>
    left
    apply h.of_accounts
    · exact going
    · simp [queued, pipe]
    · exact ⟨accounts.events, accounts.rawLines, accounts.counted⟩

theorem Going.hangUp (h : x.Going lines) : x.hangUp.Going lines :=
  ⟨h.phase, h.refused, h.accounts.events, h.accounts.rawLines, h.accounts.counted⟩

theorem Going.cancel (h : x.Going lines) : x.cancel.Going lines ∨ x.cancel.Abandoned lines := by
  have none : x.refused = [] := h.refused
  rcases x.pipe.cancel_cases with ⟨ended, nothing⟩ | stopped
  · have same : x.cancel = x.hangUp := by
      rw [HandOff.cancel, HandOff.hangUp, ended, nothing, List.append_nil]
    exact .inl (same ▸ h.hangUp)
  · obtain ⟨counted, front⟩ := h.accounts.stopped
    right
    rw [HandOff.cancel, stopped, none, List.nil_append]
    exact ⟨rfl, counted, x.pipe.offered_cases.1, front⟩

theorem Abandoned.move {y : Exchange} (h : x.Abandoned lines)
    (hy : Exchange.Step pacing x.exchange y) : (x.after y).Abandoned lines := by
  obtain ⟨⟨p, taken⟩, handed, refused⟩ := x
  have stopped : p.phase = .abandoned := h.phase
  have nothing : p.offered = [] := by simp [Pipe.offered, stopped]
  cases hy with
  | advance hq => simp [Pipe.advance?, stopped] at hq
  | wake phase => simp [stopped] at phase
  | resume changed => simp [Pipe.resume, stopped] at changed
  | @receive _ e rest _ queued =>
    simp only [after, pipe, queued, nothing, List.length_cons,
      List.drop_eq_nil_of_le (Nat.le_succ rest.length), ite_self, List.append_nil]
    exact ⟨stopped, h.counted, h.single, h.front⟩

theorem Abandoned.hangUp (h : x.Abandoned lines) : x.hangUp.Abandoned lines :=
  ⟨h.phase, h.counted, h.single, h.front⟩

theorem Abandoned.cancel (h : x.Abandoned lines) : x.cancel.Abandoned lines := by
  have stopped : x.pipe.phase = .abandoned := h.phase
  have nothing : x.pipe.offered = [] := by simp [Pipe.offered, stopped]
  have same : x.pipe.cancel = x.pipe.hangUp := by
    simp [Pipe.cancel, Pipe.hangUp, stopped]
  have hung : x.cancel = x.hangUp := by
    rw [HandOff.cancel, HandOff.hangUp, same, nothing, List.append_nil]
  exact hung ▸ h.hangUp

theorem Sound.step (h : x.Sound lines) (hy : Step pacing x y) : y.Sound lines := by
  obtain ⟨books, queued⟩ := h
  cases hy with
  | @move y hy =>
    obtain ⟨same, flow⟩ := hy.flow
    refine ⟨?_, fun received => ?_⟩
    · rcases books with going | abandoned
      · exact going.move hy
      · exact .inr (abandoned.move hy)
    · rw [after, queued (same.symm.trans received)]
      exact flow
  | hangUp =>
    refine ⟨?_, fun received => nomatch received⟩
    exact books.imp Going.hangUp Abandoned.hangUp
  | cancel =>
    refine ⟨?_, fun received => ?_⟩
    · rcases books with going | abandoned
      · exact going.cancel
      · exact .inr abandoned.cancel
    · exact absurd (x.pipe.received_cancel.symm.trans received) Bool.false_ne_true

theorem Sound.steps (h : x.Sound lines) (hy : Steps pacing x y) : y.Sound lines := by
  induction hy with
  | refl => exact h
  | tail _ step ih => exact ih.step step

end Step

section Runs

variable {pacing : Pacing}

/-- Reader and receiver may go on together. -/
theorem exists_steps {x y : Exchange} (h : Exchange.Steps pacing x y)
    (handed refused : List TestEvent) :
    ∃ handed' refused', Steps pacing ⟨x, handed, refused⟩ ⟨y, handed', refused'⟩ := by
  induction h with
  | refl => exact ⟨handed, refused, .refl⟩
  | tail _ step ih =>
    obtain ⟨_, _, before⟩ := ih
    exact ⟨_, _, before.tail (.move step)⟩

/-- If the receiver goes while an event is held out, that event stays counted. -/
theorem steps_refused {p : Pipe} {e : TestEvent} (phase : p.phase = .sending e)
    (taken handed refused : List TestEvent) :
    Steps pacing ⟨⟨p, taken⟩, handed, refused⟩
      ⟨⟨{ p.hangUp with phase := .abandoned }, taken⟩, handed, refused ++ [e]⟩ := by
  have gives_up : p.hangUp.advance? pacing = some { p.hangUp with phase := .abandoned } := by
    simp [Pipe.advance?, Pipe.hangUp, phase]
  have gone : Step pacing ⟨⟨p.hangUp, taken⟩, handed, refused⟩ _ := .move (.advance gives_up)
  have last : (⟨⟨p.hangUp, taken⟩, handed, refused⟩ : HandOff).after
      ⟨{ p.hangUp with phase := .abandoned }, taken⟩ =
        ⟨⟨{ p.hangUp with phase := .abandoned }, taken⟩, handed, refused ++ [e]⟩ := by
    simp [after, pipe, Pipe.offered, Pipe.hangUp, phase]
  exact .tail (.single (.hangUp _)) (last ▸ gone)

end Runs

/-- When the reader has stopped, at the end of the input, because the receiver is gone, or because
it was told to, it has counted the events that the queue took. It has counted one more, the next
event of the input, if it was holding that out at the time; and only then is the count wrong. -/
theorem counted_events (f : Feed) (pacing : Pacing) (source : String) (raw : Option RawOutput)
    {x : HandOff} {tally : Tally} (run : Steps pacing (start f) x) (stopped : x.pipe.Stopped)
    (joined : x.pipe.result source raw = .ok tally) :
    tally.events = x.handed.length + x.refused.length ∧
      (tally.events = x.handed.length ↔ x.refused = []) ∧
      (x.refused = [] ∨ x.pipe.phase = .abandoned ∧ ∃ e, x.refused = [e]) ∧
      x.handed ++ x.refused <+: f.lines.filterMap Line.event? ∧
      (x.pipe.received = true → x.handed = x.exchange.taken ++ x.pipe.queue) := by
  have sound := (sound_start f).steps run
  have number := Pipe.events_of_result joined
  have all : tally.events = x.handed.length + x.refused.length ∧
      (x.refused = [] ∨ x.pipe.phase = .abandoned ∧ ∃ e, x.refused = [e]) ∧
      x.handed ++ x.refused <+: f.lines.filterMap Line.event? := by
    rcases sound.books with going | abandoned
    · obtain ⟨counted, front⟩ := going.accounts.stopped
      have nothing : x.pipe.offered = [] := by
        rcases stopped with phase | phase | phase
        · simp [Pipe.offered, phase]
        · simp [Pipe.offered, phase]
        · exact absurd phase going.phase
      rw [going.refused, number]
      rw [nothing] at counted front
      exact ⟨counted, .inl rfl, front⟩
    · exact ⟨number.trans abandoned.counted, abandoned.single.imp_right (⟨abandoned.phase, ·⟩),
        abandoned.front⟩
  obtain ⟨total, single, front⟩ := all
  refine ⟨total, ?_, single, front, sound.queued⟩
  rw [total, ← List.length_eq_zero_iff]
  omega

/-- A receiver that takes both events finds both counted. -/
theorem counted_events_all_taken :
    let line := "\x7b\"Time\":\"2024-01-02T03:04:05Z\",\"Action\":\"start\"\x7d\n"
    let feed : Feed := ⟨(line ++ line).toUTF8.toList, .complete, none⟩
    let pacing : Pacing := ⟨none, 1, false⟩
    ∃ x, Steps pacing (start feed) x ∧ x.pipe.phase = .finished ∧
      x.pipe.result "standard input" none = .ok ⟨2, 0⟩ ∧ x.handed.length = 2 := by
  intro line feed pacing
  let e : TestEvent := ⟨⟨1704164645, 0, 0⟩, .start, "", "", "", none⟩
  have ends : (Pipe.ofFeed feed).deliveries pacing none 0 = ([⟨0, [e], ""⟩, ⟨0, [e], ""⟩],
      ⟨[], .complete, .finished, some e.time, [], true, 127, 2, []⟩) := by
    decide +kernel
  obtain ⟨handed, refused, run⟩ :=
    exists_steps (Exchange.steps_deliveries none 0 (Pipe.ofFeed feed) []) [] []
  rw [ends] at run
  obtain ⟨_, right_count, refusals, _, _⟩ :=
    counted_events feed pacing "standard input" none run (.inl rfl) rfl
  refine ⟨_, run, rfl, rfl, (right_count.2 ?_).symm⟩
  rcases refusals with none | ⟨abandoned, _⟩
  · exact none
  · cases abandoned

/-- Of three events the receiver takes one and goes, while the reader holds out the second: two
are counted, and one was handed over. -/
theorem counted_but_refused :
    let line := "\x7b\"Time\":\"2024-01-02T03:04:05Z\",\"Action\":\"start\"\x7d\n"
    let feed : Feed := ⟨(line ++ line ++ line).toUTF8.toList, .complete, none⟩
    let pacing : Pacing := ⟨none, 1, false⟩
    ∃ x, Steps pacing (start feed) x ∧ x.pipe.Stopped ∧
      x.pipe.result "standard input" none = .ok ⟨2, 0⟩ ∧ x.handed.length = 1 := by
  intro line feed pacing
  let e : TestEvent := ⟨⟨1704164645, 0, 0⟩, .start, "", "", "", none⟩
  have ends : (Pipe.ofFeed feed).deliveries pacing (some 1) 0 = ([⟨0, [e], ""⟩],
      ⟨[.line (.event e)], .complete, .sending e, some e.time, [], true, 127, 2, []⟩) := by
    decide +kernel
  obtain ⟨handed, refused, run⟩ :=
    exists_steps (Exchange.steps_deliveries (some 1) 0 (Pipe.ofFeed feed) []) [] []
  rw [ends] at run
  have queued : handed = [e] := ((sound_start feed).steps run).queued rfl
  refine ⟨_, run.trans (steps_refused rfl _ _ _), .inr (.inr rfl), rfl, ?_⟩
  exact congrArg List.length queued

end HandOff
end TestWatch
