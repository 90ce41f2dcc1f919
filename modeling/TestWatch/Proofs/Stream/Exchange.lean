import TestWatch.Proofs.Stream.Decoding
import TestWatch.Stream.Delivery
import Mathlib.Data.List.Basic
import Mathlib.Data.List.Induction
import Mathlib.Logic.Relation

/-!
# Reader and receiver in any order

A reader and a receiver share a queue, and either may take the next step. Whatever the order, no
line is lost, none comes twice, and events stay in order: what was received, what is queued, what
the reader holds and what is still to be read are the input together. The queue never exceeds its
capacity. The two never wait for each other, and each step brings the end nearer, so the receiver
gets all events.
-/

namespace TestWatch

namespace Line

def event? : Line → Option TestEvent
  | event e => some e
  | raw _ => none

def raw? : Line → Option String
  | event _ => none
  | raw text => some text

theorem filterMap_event?_filter (ls : List Line) :
    (ls.filter fun l => !l.isBlank).filterMap event? = ls.filterMap event? := by
  rw [List.filterMap_filter]
  apply List.filterMap_congr
  intro l _
  cases l with
  | event e => rfl
  | raw text => cases h : (raw text).isBlank <;> simp [event?]

theorem filterMap_raw?_filter (ls : List Line) :
    (ls.filter fun l => !l.isBlank).filterMap raw? =
      (ls.filterMap raw?).filter fun text => !(Text.trim text.toList).isEmpty := by
  rw [List.filterMap_filter, List.filter_filterMap]
  apply List.filterMap_congr
  intro l _
  cases l with
  | event e => rfl
  | raw text => cases h : (Text.trim text.toList).isEmpty <;> simp [raw?, isBlank, Option.filter, h]

end Line

namespace Pipe

theorem read_cases (pacing : Pacing) (p : Pipe) (a : Arrival) :
    (a = .wait ∧ p.read pacing a = { p with phase := .loading }) ∨
    (∃ text phase, a = .line (.raw text) ∧
      (phase = .reading ∨ phase = .stuck ∧ pacing.rawRefused = true) ∧
      p.read pacing a = { p with phase := phase, rawLines := p.rawLines ++ [text] }) ∨
    (∃ e, a = .line (.event e) ∧ p.read pacing a = p.offer e) ∨
    ∃ d e, a = .line (.event e) ∧ p.read pacing a = { p with phase := .pausing d e } := by
  cases a with
  | wait => exact .inl ⟨rfl, rfl⟩
  | line l =>
    cases l with
    | raw text =>
      refine .inr (.inl ⟨text, _, rfl, ?_, rfl⟩)
      split
      · rename_i refused
        exact .inr ⟨rfl, (Bool.and_eq_true_iff.1 refused).1⟩
      · exact .inl rfl
    | event e =>
      simp only [Pipe.read]
      split
      · exact .inr (.inr (.inl ⟨e, rfl, rfl⟩))
      · exact .inr (.inr (.inr ⟨_, e, rfl, rfl⟩))

theorem advance?_cases {pacing : Pacing} {p q : Pipe} (h : p.advance? pacing = some q) :
    (∃ a rest, p.phase = .reading ∧ p.ahead = a :: rest ∧
      q = { p with ahead := rest }.read pacing a) ∨
    (p.phase = .reading ∧ p.ahead = [] ∧ q = { p with phase := .finished }) ∨
    (∃ e, p.phase = .sending e ∧ p.received = false ∧ q = { p with phase := .abandoned }) ∨
    ∃ e, p.phase = .sending e ∧ p.queue.length < pacing.room ∧
      q = { p with phase := .reading, queue := p.queue ++ [e], stretch := p.stretch - 1 } := by
  unfold advance? at h
  split at h
  · rename_i phase
    split at h
    · rename_i a rest ahead
      exact .inl ⟨a, rest, phase, ahead, (Option.some.inj h).symm⟩
    · rename_i ahead
      split at h
      · cases h
      · exact .inr (.inl ⟨phase, ahead, (Option.some.inj h).symm⟩)
  · rename_i e phase
    split at h
    · rename_i gone
      exact .inr (.inr (.inl ⟨e, phase, by simpa using gone, (Option.some.inj h).symm⟩))
    · split at h
      · rename_i room
        exact .inr (.inr (.inr ⟨e, phase, room.2, (Option.some.inj h).symm⟩))
      · cases h
  all_goals cases h

theorem advance?_eq_none {pacing : Pacing} {p : Pipe} (h : p.advance? pacing = none)
    (received : p.received = true) :
    (p.phase = .reading ∧ p.ending = .pending) ∨
    (∃ e, p.phase = .sending e ∧ (p.stretch = 0 ∨ pacing.room ≤ p.queue.length)) ∨
    p.phase = .loading ∨ (∃ d e, p.phase = .pausing d e) ∨
    p.phase = .finished ∨ p.phase = .stuck ∨ p.phase = .abandoned := by
  unfold advance? at h
  cases phase : p.phase with
  | reading =>
    simp only [phase] at h
    split at h
    · cases h
    · split at h
      · exact .inl ⟨rfl, ‹_›⟩
      · cases h
  | sending e =>
    simp only [phase, received, Bool.not_true, Bool.false_eq_true, ↓reduceIte] at h
    split at h
    · cases h
    · rename_i blocked
      exact .inr (.inl ⟨e, rfl, by omega⟩)
  | pausing d e => simp
  | loading => simp
  | finished => simp
  | stuck => simp
  | abandoned => simp

/-- Only a reader that waits for more input or for room goes on when it gets its turn. -/
theorem resume_cases {p : Pipe} (h : p.resume ≠ p) :
    (p.phase = .loading ∧ p.resume = { p with phase := .reading, stretch := longestStretch - 1 }) ∨
    ∃ e, p.phase = .sending e ∧ p.stretch ≠ longestStretch ∧
      p.resume = { p with stretch := longestStretch } := by
  cases phase : p.phase with
  | loading => exact .inl ⟨rfl, by simp [resume, phase]⟩
  | sending e =>
    have fresh : p.resume = { p with stretch := longestStretch } := by simp [resume, phase]
    refine .inr ⟨e, rfl, fun full => h ?_, fresh.trans (by rw [phase])⟩
    rw [fresh, ← full]
  | reading | pausing _ _ | finished | stuck | abandoned => simp [resume, phase] at h

def inHand (p : Pipe) : List TestEvent :=
  match p.phase with
  | .pausing _ e | .sending e => [e]
  | .reading | .loading | .finished | .stuck | .abandoned => []

/-- The event that has been counted and is not yet handed over. -/
def offered (p : Pipe) : List TestEvent :=
  match p.phase with
  | .sending e => [e]
  | .reading | .loading | .pausing _ _ | .finished | .stuck | .abandoned => []

def linesAhead (p : Pipe) : List Line := p.ahead.filterMap Arrival.line?

/-- Somebody receives, and nothing has stopped the reader before the end of its input. -/
structure Attended (p : Pipe) : Prop where
  received : p.received = true
  ending : p.ending = .complete
  going : p.phase ≠ .stuck ∧ p.phase ≠ .abandoned
  finished : p.phase = .finished → p.ahead = []

/-- What was taken, what is on its way and what is still to be read are all the lines. -/
structure Accounts (lines : List Line) (taken : List TestEvent) (p : Pipe) : Prop where
  events : taken ++ p.queue ++ p.inHand ++ p.linesAhead.filterMap Line.event? =
    lines.filterMap Line.event?
  rawLines : p.rawLines ++ p.linesAhead.filterMap Line.raw? = lines.filterMap Line.raw?
  counted : p.events = taken.length + p.queue.length + p.offered.length

section Advance

variable {pacing : Pacing} {lines : List Line} {taken : List TestEvent} {p q : Pipe}

theorem Accounts.read {a : Arrival} {rest : List Arrival} (h : p.Accounts lines taken)
    (phase : p.phase = .reading) (ahead : p.ahead = a :: rest) :
    ({ p with ahead := rest }.read pacing a).Accounts lines taken := by
  obtain ⟨events, rawLines, counted⟩ := h
  simp only [inHand, offered, linesAhead, phase, ahead, List.append_nil, List.length_nil,
    Nat.add_zero] at events rawLines counted
  rcases read_cases pacing { p with ahead := rest } a with ⟨rfl, read⟩ |
      ⟨text, next, rfl, going, read⟩ | ⟨e, rfl, read⟩ | ⟨d, e, rfl, read⟩
  · rw [read]
    refine ⟨?_, rawLines, counted⟩
    simpa [inHand, linesAhead, List.filterMap_cons, Arrival.line?] using events
  · rw [read]
    rcases going with rfl | ⟨rfl, _⟩
    all_goals
      refine ⟨?_, ?_, counted⟩
      · simpa [inHand, linesAhead, List.filterMap_cons, Arrival.line?, Line.event?] using events
      · simpa [linesAhead, List.filterMap_cons, Arrival.line?, Line.raw?] using rawLines
  · rw [read]
    refine ⟨?_, rawLines, ?_⟩
    · simpa [inHand, linesAhead, offer, Arrival.line?, Line.event?] using events
    · simpa [offered, offer] using counted
  · rw [read]
    refine ⟨?_, rawLines, ?_⟩
    · simpa [inHand, linesAhead, Arrival.line?, Line.event?] using events
    · simpa [offered] using counted

theorem Attended.read {a : Arrival} {rest : List Arrival} (h : p.Attended)
    (accepted : pacing.rawRefused = false) :
    ({ p with ahead := rest }.read pacing a).Attended := by
  rcases read_cases pacing { p with ahead := rest } a with ⟨_, read⟩ |
      ⟨text, next, _, rfl | ⟨_, refused⟩, read⟩ | ⟨e, _, read⟩ | ⟨d, e, _, read⟩
  · rw [read]
    exact ⟨h.received, h.ending, by simp, by simp⟩
  · rw [read]
    exact ⟨h.received, h.ending, by simp, by simp⟩
  · cases accepted.symm.trans refused
  · rw [read]
    exact ⟨h.received, h.ending, by simp [offer], by simp [offer]⟩
  · rw [read]
    exact ⟨h.received, h.ending, by simp, by simp⟩

theorem Accounts.advance (h : p.Accounts lines taken) (attended : p.Attended)
    (hq : p.advance? pacing = some q) : q.Accounts lines taken := by
  rcases advance?_cases hq with ⟨a, rest, phase, ahead, rfl⟩ | ⟨phase, ahead, rfl⟩ |
      ⟨e, _, gone, _⟩ | ⟨e, phase, _, rfl⟩
  · exact h.read phase ahead
  · obtain ⟨events, rawLines, counted⟩ := h
    simp only [inHand, offered, phase] at events counted
    exact ⟨events, rawLines, counted⟩
  · simp [attended.received] at gone
  · obtain ⟨events, rawLines, counted⟩ := h
    simp only [inHand, offered, phase, List.length_singleton] at events counted
    refine ⟨?_, rawLines, ?_⟩
    · simpa [inHand, linesAhead] using events
    · simp only [offered, List.length_append, List.length_singleton, List.length_nil]
      omega

theorem Accounts.wake {d : Duration} {e : TestEvent} (h : p.Accounts lines taken)
    (phase : p.phase = .pausing d e) : p.wake.Accounts lines taken := by
  obtain ⟨events, rawLines, counted⟩ := h
  simp only [inHand, offered, phase] at events counted
  simp only [Pipe.wake, phase]
  refine ⟨events, rawLines, ?_⟩
  simpa [offer, offered] using counted

theorem Accounts.resume (h : p.Accounts lines taken) : p.resume.Accounts lines taken := by
  by_cases same : p.resume = p
  · rwa [same]
  · obtain ⟨events, rawLines, counted⟩ := h
    rcases resume_cases same with ⟨phase, resumed⟩ | ⟨e, _, _, resumed⟩
    · simp only [inHand, offered, phase] at events counted
      rw [resumed]
      exact ⟨events, rawLines, counted⟩
    · rw [resumed]
      exact ⟨events, rawLines, counted⟩

theorem Attended.advance (h : p.Attended) (accepted : pacing.rawRefused = false)
    (hq : p.advance? pacing = some q) : q.Attended := by
  rcases advance?_cases hq with ⟨a, rest, _, _, rfl⟩ | ⟨_, ahead, rfl⟩ | ⟨e, _, gone, _⟩ |
      ⟨e, _, _, rfl⟩
  · exact h.read accepted
  · exact ⟨h.received, h.ending, by simp, fun _ => ahead⟩
  · simp [h.received] at gone
  · exact ⟨h.received, h.ending, by simp, by simp⟩

theorem queue_read (p : Pipe) (a : Arrival) : (p.read pacing a).queue = p.queue := by
  rcases read_cases pacing p a with ⟨_, read⟩ | ⟨_, _, _, _, read⟩ | ⟨_, _, read⟩ | ⟨_, _, _, read⟩
  all_goals simp [read, offer]

/-- An event is handed over only where there is room for it. -/
theorem length_queue_advance_le (h : p.queue.length ≤ pacing.room)
    (hq : p.advance? pacing = some q) : q.queue.length ≤ pacing.room := by
  rcases advance?_cases hq with ⟨a, rest, _, _, rfl⟩ | ⟨_, _, rfl⟩ | ⟨e, _, _, rfl⟩ |
      ⟨e, _, room, rfl⟩
  · rwa [queue_read]
  · exact h
  · exact h
  · rw [List.length_append, List.length_singleton]
    exact room

end Advance

theorem accounts_ofFeed (f : Feed) : (ofFeed f).Accounts f.lines [] := by
  refine ⟨?_, ?_, rfl⟩
  · simp [ofFeed, inHand, linesAhead]
  · simp [ofFeed, linesAhead]

end Pipe

structure Exchange where
  pipe : Pipe
  taken : List TestEvent

namespace Exchange

/-- The next step is the reader's, or the receiver takes an event. The reader goes on by itself, or
a pause is over, or what it waited for has come. -/
inductive Step (pacing : Pacing) : Exchange → Exchange → Prop
  | advance {p q : Pipe} {taken : List TestEvent} :
      p.advance? pacing = some q → Step pacing ⟨p, taken⟩ ⟨q, taken⟩
  | wake {p : Pipe} {d : Duration} {e : TestEvent} {taken : List TestEvent} :
      p.phase = .pausing d e → Step pacing ⟨p, taken⟩ ⟨p.wake, taken⟩
  | resume {p : Pipe} {taken : List TestEvent} :
      p.resume ≠ p → Step pacing ⟨p, taken⟩ ⟨p.resume, taken⟩
  | receive {p : Pipe} {e : TestEvent} {rest taken : List TestEvent} :
      p.queue = e :: rest → Step pacing ⟨p, taken⟩ ⟨{ p with queue := rest }, taken ++ [e]⟩

def Steps (pacing : Pacing) : Exchange → Exchange → Prop := Relation.ReflTransGen (Step pacing)

/-- The reader has come to the end, and everything has been received. -/
def Over (x : Exchange) : Prop := x.pipe.phase = .finished ∧ x.pipe.queue = []

instance (x : Exchange) : Decidable x.Over :=
  inferInstanceAs (Decidable (x.pipe.phase = .finished ∧ x.pipe.queue = []))

/-- How much there is to do. To hand an event over adds to the queue and may use up a stretch, so
the reader's work weighs more than both. -/
def effort (x : Exchange) : Nat :=
  4 * x.pipe.work + x.pipe.queue.length +
    (if x.pipe.stretch = Pipe.longestStretch then 0 else 1)

structure Sound (pacing : Pacing) (lines : List Line) (x : Exchange) : Prop where
  accounts : x.pipe.Accounts lines x.taken
  attended : x.pipe.Attended
  bounded : x.pipe.queue.length ≤ pacing.room

section Step

variable {pacing : Pacing} {lines : List Line} {x y : Exchange}

theorem Sound.step (h : x.Sound pacing lines) (accepted : pacing.rawRefused = false)
    (hy : Step pacing x y) : y.Sound pacing lines := by
  obtain ⟨accounts, attended, bounded⟩ := h
  cases hy with
  | advance hq =>
    exact ⟨accounts.advance attended hq, attended.advance accepted hq,
      Pipe.length_queue_advance_le bounded hq⟩
  | @wake p d e taken phase =>
    have woken := accounts.wake phase
    simp only [Pipe.wake, phase, Pipe.offer] at woken ⊢
    exact ⟨woken, ⟨attended.received, attended.ending, by simp, by simp⟩, bounded⟩
  | @resume p taken changed =>
    have again := accounts.resume
    rcases Pipe.resume_cases changed with ⟨_, resumed⟩ | ⟨e, _, _, resumed⟩
    · rw [resumed] at again ⊢
      exact ⟨again, ⟨attended.received, attended.ending, by simp, by simp⟩, bounded⟩
    · rw [resumed] at again ⊢
      exact ⟨again, ⟨attended.received, attended.ending, attended.going, attended.finished⟩,
        bounded⟩
  | @receive p e rest taken queued =>
    obtain ⟨events, rawLines, counted⟩ := accounts
    refine ⟨⟨?_, rawLines, ?_⟩, ⟨attended.received, attended.ending, attended.going,
      attended.finished⟩, ?_⟩
    · simpa [queued, Pipe.inHand, Pipe.linesAhead] using events
    · simp only [queued, List.length_cons] at counted
      simp only [List.length_append, List.length_singleton, Pipe.offered] at counted ⊢
      omega
    · simp only [queued, List.length_cons] at bounded
      exact Nat.le_of_succ_le bounded

theorem Sound.steps (h : x.Sound pacing lines) (accepted : pacing.rawRefused = false)
    (hy : Steps pacing x y) : y.Sound pacing lines := by
  induction hy with
  | refl => exact h
  | tail _ step ih => exact ih.step accepted step

/-- Each step brings the end nearer. -/
theorem Step.effort_lt (h : Step pacing x y) : y.effort < x.effort := by
  cases h with
  | @advance p q taken hq =>
    have less := Pipe.work_advance hq
    have queued : q.queue.length ≤ p.queue.length + 1 := by
      rcases Pipe.advance?_cases hq with ⟨a, rest, _, _, rfl⟩ | ⟨_, _, rfl⟩ | ⟨e, _, _, rfl⟩ |
          ⟨e, _, _, rfl⟩
      · rw [Pipe.queue_read]
        exact Nat.le_succ _
      · exact Nat.le_succ _
      · exact Nat.le_succ _
      · simp
    simp only [effort]
    split <;> omega
  | @wake p d e taken phase =>
    have less := Pipe.work_wake phase
    have queued : p.wake.queue = p.queue := by simp [Pipe.wake, phase, Pipe.offer]
    simp only [effort, queued]
    split <;> omega
  | @resume p taken changed =>
    rcases Pipe.resume_cases changed with ⟨phase, resumed⟩ | ⟨e, phase, used, resumed⟩
    · have less := Pipe.work_resume_lt phase
      have queued : p.resume.queue = p.queue := by rw [resumed]
      simp only [effort, queued]
      split <;> omega
    · rw [resumed]
      simp [effort, Pipe.work, used]
  | @receive p e rest taken queued =>
    simp [effort, Pipe.work, queued]

/-- Reader and receiver never wait for each other. -/
theorem Sound.over_or_step (h : x.Sound pacing lines) : x.Over ∨ ∃ y, Step pacing x y := by
  obtain ⟨p, taken⟩ := x
  have attended := h.attended
  cases queued : p.queue with
  | cons e rest => exact .inr ⟨_, .receive queued⟩
  | nil =>
    cases advanced : p.advance? pacing with
    | some q => exact .inr ⟨_, .advance advanced⟩
    | none =>
      rcases Pipe.advance?_eq_none advanced attended.received with ⟨_, pending⟩ |
          ⟨e, phase, blocked⟩ | phase | ⟨d, e, phase⟩ | phase | phase | phase
      · exact nomatch pending.symm.trans attended.ending
      · have no_room : ¬ pacing.room ≤ p.queue.length := by simp [queued, Pacing.room]
        have used : p.stretch = 0 := blocked.resolve_right no_room
        have changed : p.resume ≠ p := by
          intro same
          have := congrArg Pipe.stretch same
          simp [Pipe.resume, phase, used, Pipe.longestStretch] at this
        exact .inr ⟨_, .resume changed⟩
      · have changed : p.resume ≠ p := by
          intro same
          have := congrArg Pipe.phase same
          simp [Pipe.resume, phase] at this
        exact .inr ⟨_, .resume changed⟩
      · exact .inr ⟨_, .wake phase⟩
      · exact .inl ⟨phase, queued⟩
      · exact absurd phase attended.going.1
      · exact absurd phase attended.going.2

/-- Once it is over, the receiver has all events, and the counts are those of the input. -/
theorem Sound.of_over (h : x.Sound pacing lines) (ended : x.Over) :
    x.taken = lines.filterMap Line.event? ∧ x.pipe.rawLines = lines.filterMap Line.raw? ∧
      x.pipe.events = x.taken.length := by
  obtain ⟨⟨events, rawLines, counted⟩, attended, _⟩ := h
  obtain ⟨phase, queued⟩ := ended
  have ahead := attended.finished phase
  refine ⟨?_, ?_, ?_⟩
  · simpa [queued, Pipe.inHand, phase, Pipe.linesAhead, ahead] using events
  · simpa [Pipe.linesAhead, ahead] using rawLines
  · simpa [queued, Pipe.offered, phase] using counted

end Step

theorem sound_ofFeed (pacing : Pacing) {f : Feed} (h : f.ending = .complete) :
    (⟨Pipe.ofFeed f, []⟩ : Exchange).Sound pacing f.lines :=
  ⟨Pipe.accounts_ofFeed f, ⟨rfl, h, by simp [Pipe.ofFeed], by simp [Pipe.ofFeed]⟩, Nat.zero_le _⟩

section Deliveries

variable {pacing : Pacing}

theorem steps_front (rest : List TestEvent) {batch : List TestEvent} {p : Pipe}
    {taken : List TestEvent} (queued : p.queue = batch ++ rest) :
    Steps pacing ⟨p, taken⟩ ⟨{ p with queue := rest }, taken ++ batch⟩ := by
  induction batch generalizing p taken with
  | nil =>
    have same : { p with queue := rest } = p := by rw [← List.nil_append rest, ← queued]
    rw [same, List.append_nil]
    exact .refl
  | cons e batch ih =>
    have later : Steps pacing ⟨{ p with queue := batch ++ rest }, taken ++ [e]⟩
        ⟨{ p with queue := rest }, taken ++ [e] ++ batch⟩ := ih rfl
    rw [List.append_assoc, List.singleton_append] at later
    exact .head (.receive queued) later

theorem steps_take (limit : Option Nat) (p : Pipe) (taken : List TestEvent) :
    Steps pacing ⟨p, taken⟩ ⟨(p.take limit).2, taken ++ (p.take limit).1⟩ := by
  cases limit with
  | none => exact steps_front [] (List.append_nil _).symm
  | some n => exact steps_front (p.queue.drop n) (List.take_append_drop _ _).symm

theorem steps_resume (p : Pipe) (taken : List TestEvent) :
    Steps pacing ⟨p, taken⟩ ⟨p.resume, taken⟩ := by
  by_cases same : p.resume = p
  · rw [same]
    exact .refl
  · exact .single (.resume same)

theorem steps_deliveries (limit : Option Nat) (millis : Nat) (p : Pipe) (taken : List TestEvent) :
    Steps pacing ⟨p, taken⟩ ⟨(p.deliveries pacing limit millis).2,
      taken ++ (p.deliveries pacing limit millis).1.flatMap Delivery.events⟩ := by
  -- A delivery holds what was taken, and there is none if nothing was.
  have delivered (batch : List TestEvent) (millis : Nat) (stored : String) :
      (if _ : batch = [] then [] else [(⟨millis, batch, stored⟩ : Delivery)]).flatMap
        Delivery.events = batch := by
    split <;> simp_all
  fun_induction Pipe.deliveries pacing limit millis p generalizing taken with
  | case1 millis p => simpa using .refl
  | case2 limit millis p _ q advanced _ ih => exact .head (.advance advanced) (ih taken)
  | case3 limit millis p _ _ batch rest _ now =>
    have given : now.flatMap Delivery.events = batch := delivered batch millis _
    dsimp only
    rw [given]
    exact steps_take limit p taken
  | case4 limit millis p _ _ batch rest limit' now _ q advanced _ later ih =>
    have given : now.flatMap Delivery.events = batch := delivered batch millis _
    dsimp only
    rw [List.flatMap_append, given, ← List.append_assoc]
    have taking : Steps pacing ⟨p, taken⟩ ⟨rest, taken ++ batch⟩ := steps_take limit p taken
    exact (taking.trans (steps_resume rest _)).trans (.head (.advance advanced) (ih _))
  | case5 limit millis p _ _ batch rest limit' now _ _ d e phase _ later ih =>
    have given : now.flatMap Delivery.events = batch := delivered batch millis _
    dsimp only
    rw [List.flatMap_append, given, ← List.append_assoc]
    exact (steps_take limit p taken).trans (.head (.wake phase) (ih _))
  | case6 limit millis p _ _ batch rest _ now =>
    have given : now.flatMap Delivery.events = batch := delivered batch millis _
    dsimp only
    rw [given]
    exact steps_take limit p taken

/-- A receiver that has taken all events and finds the reader unable to go on is at the end. -/
theorem Sound.over_of_resume {lines : List Line} {p : Pipe} {taken : List TestEvent}
    (h : (⟨p, taken⟩ : Exchange).Sound pacing lines) (queue : p.queue = [])
    (blocked : p.resume.advance? pacing = none) (awake : ∀ d e, p.phase ≠ .pausing d e) :
    (⟨p, taken⟩ : Exchange).Over := by
  have attended := h.attended
  have received : p.resume.received = true := by
    have := attended.received
    unfold Pipe.resume
    split <;> exact this
  have cases_ := Pipe.advance?_eq_none blocked received
  cases phase : p.phase with
  | finished => exact ⟨phase, queue⟩
  | pausing d e => exact absurd phase (awake d e)
  | stuck => exact absurd phase attended.going.1
  | abandoned => exact absurd phase attended.going.2
  | reading =>
    have ending : p.ending = .complete := attended.ending
    simp [Pipe.resume, phase, ending] at cases_
  | loading =>
    have ending : p.ending = .complete := attended.ending
    simp [Pipe.resume, phase, ending] at cases_
  | sending e =>
    simp [Pipe.resume, phase, queue, Pacing.room, Pipe.longestStretch] at cases_

theorem Sound.over_deliveries {lines : List Line} {p : Pipe} {taken : List TestEvent}
    (h : (⟨p, taken⟩ : Exchange).Sound pacing lines) (accepted : pacing.rawRefused = false)
    {limit : Option Nat} (all : limit = none) (millis : Nat) :
    (p.deliveries pacing limit millis).2.phase = .finished ∧
      (p.deliveries pacing limit millis).2.queue = [] := by
  fun_induction Pipe.deliveries pacing limit millis p generalizing taken with
  | case1 => cases all
  | case2 limit millis p _ q advanced _ ih => exact ih (h.step accepted (.advance advanced)) all
  | case3 limit millis p _ _ batch rest limit' now =>
    rename_i none_left
    simp [limit', all] at none_left
  | case4 limit millis p _ _ batch rest limit' now _ q advanced _ later =>
    rename_i ih
    have taking := h.steps accepted (steps_take limit p taken)
    have resumed := taking.steps accepted (steps_resume rest _)
    exact ih (resumed.step accepted (.advance advanced)) (by simp [limit', all])
  | case5 limit millis p _ _ batch rest limit' now _ _ d e phase _ later =>
    rename_i ih
    have taking := h.steps accepted (steps_take limit p taken)
    exact ih (taking.step accepted (.wake phase)) (by simp [limit', all])
  | case6 limit millis p _ _ batch rest limit' now _ blocked =>
    rename_i awake
    have taking := h.steps accepted (steps_take limit p taken)
    have emptied : rest.queue = [] := by simp [rest, all, Pipe.take]
    exact taking.over_of_resume emptied blocked fun d e phase => awake d e phase

end Deliveries

end Exchange

theorem Spool.text_ofLines (lines : List String) :
    (ofLines lines).text = String.join (lines.map (· ++ "\n")) := by
  induction lines using List.reverseRecOn with
  | nil => rfl
  | append_singleton lines l ih =>
    have last : ofLines (lines ++ [l]) = (ofLines lines).writeLine l := by
      simp [ofLines, List.foldl_append]
    rw [last, text_writeLine, ih]
    simp [String.join, List.foldl_append, String.append_assoc]

/-- With the last piece the file has all lines, each with a newline after it. -/
theorem Spool.given_spill_ofLines (lines : List String) :
    (ofLines lines).spill.given = String.join (lines.map (· ++ "\n")) := by
  have nothing_left : (ofLines lines).spill.collected = "" := by
    unfold spill
    split
    · assumption
    · rfl
  rw [← text_ofLines, ← text_spill, text, nothing_left, String.append_empty]

namespace Exchange

/-- In whatever order reader and receiver take their steps, and however the events are paced, the
queue keeps within its capacity, and what the receiver has taken are the first events of the input.
Every step brings the end nearer, and short of the end there is a step. At the end the receiver has
the events of all lines of the decoded input, the counts are those of events and of other lines that
are not blank, and the file for raw lines holds these. A receiver on a clock comes to that end. -/
theorem input_handed_over (bytes : List UInt8) (block : Option Nat) (pacing : Pacing)
    (path : Option String) (source : String) {x : Exchange} :
    let raw := path.map fun path => (⟨path, none⟩ : RawOutput)
    let start := Pipe.ofFeed ⟨bytes, .complete, block⟩
    let lines := (splitAfter (· == '\n') (Utf8.decode bytes)).map fun part =>
      Line.read (String.ofList part)
    let events := lines.filterMap Line.event?
    let rawLines := (lines.filterMap Line.raw?).filter fun text =>
      !(Text.trim text.toList).isEmpty
    (Steps (pacing.writingTo raw) ⟨start, []⟩ x →
      x.pipe.queue.length ≤ max pacing.capacity 1 ∧
      x.taken ++ x.pipe.queue <+: events ∧
      (∀ y, Step (pacing.writingTo raw) x y → y.effort < x.effort) ∧
      (x.Over ∨ ∃ y, Step (pacing.writingTo raw) x y) ∧
      (x.Over → x.taken = events ∧
        x.pipe.result source raw = .ok ⟨events.length, rawLines.length⟩ ∧
        x.pipe.stored = String.join (rawLines.map (· ++ "\n")) ∧
        (Spool.ofLines x.pipe.rawLines).spill.given = x.pipe.stored)) ∧
    (start.deliveries (pacing.writingTo raw) none 0).1.flatMap Delivery.events = events := by
  intro raw start lines events rawLines
  have accepted : (pacing.writingTo raw).rawRefused = false := by
    cases path <;> rfl
  have counted : (⟨bytes, .complete, block⟩ : Feed).lines = lines.filter fun l => !l.isBlank :=
    Feed.lines_of_complete rfl
  have events_eq : (lines.filter fun l => !l.isBlank).filterMap Line.event? = events :=
    Line.filterMap_event?_filter lines
  have raw_eq : (lines.filter fun l => !l.isBlank).filterMap Line.raw? = rawLines :=
    Line.filterMap_raw?_filter lines
  have first : (⟨start, []⟩ : Exchange).Sound (pacing.writingTo raw) _ :=
    sound_ofFeed (pacing.writingTo raw) rfl
  rw [counted] at first
  constructor
  · intro run
    have sound := first.steps accepted run
    refine ⟨sound.bounded, ?_, fun y => Step.effort_lt, sound.over_or_step, ?_⟩
    · rw [← events_eq, ← sound.accounts.events, List.append_assoc]
      exact List.prefix_append _ _
    · intro ended
      obtain ⟨taken, raws, number⟩ := sound.of_over ended
      rw [events_eq] at taken
      rw [raw_eq] at raws
      have stored : x.pipe.stored = String.join (rawLines.map (· ++ "\n")) := by
        simp [Pipe.stored, ended.1, Pipe.rawText, raws]
      have no_fault : x.pipe.rawFault? raw = none := by
        cases path <;> rfl
      have no_error : x.pipe.inputFault? source = none := by
        simp [Pipe.inputFault?, sound.attended.ending]
      refine ⟨taken, ?_, stored, ?_⟩
      · simp [Pipe.result, no_fault, no_error, number, taken, raws]
      · rw [stored, Spool.given_spill_ofLines, raws]
  · have sound := first.steps accepted (steps_deliveries none 0 start [])
    obtain ⟨taken, _, _⟩ := sound.of_over (first.over_deliveries accepted rfl 0)
    rw [events_eq] at taken
    simpa using taken

theorem input_handed_over_no_room :
    let text := "\x7b\"Time\":\"2024-01-02T03:04:05Z\",\"Action\":\"pass\"\x7d\nmore"
    let feed : Feed := ⟨text.toUTF8.toList, .complete, none⟩
    let pacing := Pacing.writingTo (some ⟨"raw", none⟩) ⟨none, 0, false⟩
    ∃ x : Exchange, Steps pacing ⟨Pipe.ofFeed feed, []⟩ x ∧ x.Over ∧
      x.taken = [⟨⟨1704164645, 0, 0⟩, .pass, "", "", "", none⟩] ∧ x.pipe.stored = "more\n" := by
  intro text feed pacing
  have run : Steps pacing _ _ := steps_deliveries none 0 (Pipe.ofFeed feed) []
  have ended : ((Pipe.ofFeed feed).deliveries pacing none 0).2.phase = .finished ∧
      ((Pipe.ofFeed feed).deliveries pacing none 0).2.queue = [] := by decide +kernel
  obtain ⟨_, _, _, _, at_end⟩ :=
    (input_handed_over feed.bytes none ⟨none, 0, false⟩ (some "raw") "standard input").1 run
  obtain ⟨taken, _, stored, _⟩ := at_end ended
  exact ⟨_, run, ended, taken.trans (by decide +kernel), stored.trans (by decide +kernel)⟩

end Exchange
end TestWatch
