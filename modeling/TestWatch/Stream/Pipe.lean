import TestWatch.Stream.Input
import TestWatch.Stream.Spool

/-!
# From the reader to the receiver

A reader goes through the lines of an input and hands the events over through a queue that holds
no more than its capacity; lines that are no events are counted and kept. In a replay the reader
waits between two events as long as the recording did, scaled by the rate.

The reader moves by itself until it has to wait: for time to pass, for more input, or for room in
the queue. It also lets the receiver have a turn once it has handed over many events at a stretch.
An event counts as read when the reader begins to hand it over, so one that never finds a receiver
has been counted.
-/

namespace TestWatch

inductive Phase where
  | reading
  | loading
  | pausing (delay : Duration) (event : TestEvent)
  | sending (event : TestEvent)
  | finished
  /-- Could not write a line that is no event. -/
  | stuck
  /-- Was told to stop, or found no receiver. -/
  | abandoned
  deriving DecidableEq, Repr

structure Pacing where
  rate : Option Binary64
  /-- The most events that are queued; no queue is smaller than one. -/
  capacity : Nat
  rawRefused : Bool
  deriving DecidableEq, Repr

structure Pipe where
  ahead : List Arrival
  ending : Ending
  phase : Phase
  /-- The time of the event that was read last. -/
  previous : Option Timestamp
  queue : List TestEvent
  received : Bool
  /-- The number of events that may still be handed over at this stretch. -/
  stretch : Nat
  events : Nat
  rawLines : List String
  deriving DecidableEq, Repr

namespace Pacing

def room (p : Pacing) : Nat := max p.capacity 1

def writingTo (raw : Option RawOutput) (p : Pacing) : Pacing :=
  { p with rawRefused := raw.any fun r => r.fault.isSome }

def longestDelay : Duration := .ofMillis (30 * 365 * 86400000)

/-- How long to wait before an event. Only replays wait, and not before the first event. -/
def delay (p : Pacing) (previous : Option Timestamp) (time : Timestamp) : Duration :=
  match p.rate, previous with
  | some rate, some previous => ((previous.between time).replayDelay rate).min longestDelay
  | _, _ => .zero

end Pacing

namespace Pipe

/-- The most that a reader does at a stretch: it hands over so many events, and to come out of a
wait counts as one more. -/
def longestStretch : Nat := 128

def ofFeed (f : Feed) : Pipe :=
  ⟨f.arrivals, f.ending, .reading, none, [], true, longestStretch, 0, []⟩

def offer (e : TestEvent) (p : Pipe) : Pipe :=
  { p with phase := .sending e, previous := some e.time, events := p.events + 1 }

def keep (pacing : Pacing) (text : String) (p : Pipe) : Pipe :=
  let rawLines := p.rawLines ++ [text]
  let stuck := pacing.rawRefused && (Spool.ofLines rawLines).isRefused
  { p with rawLines := rawLines, phase := if stuck then .stuck else .reading }

def read (pacing : Pacing) (p : Pipe) : Arrival → Pipe
  | .wait => { p with phase := .loading }
  | .line (.raw text) => p.keep pacing text
  | .line (.event e) =>
    let delay := pacing.delay p.previous e.time
    if delay.nanos = 0 then p.offer e else { p with phase := .pausing delay e }

def advance? (pacing : Pacing) (p : Pipe) : Option Pipe :=
  match p.phase with
  | .reading =>
    match p.ahead with
    | a :: rest => some ({ p with ahead := rest }.read pacing a)
    | [] => if p.ending = .pending then none else some { p with phase := .finished }
  | .sending e =>
    if !p.received then some { p with phase := .abandoned }
    else if 0 < p.stretch ∧ p.queue.length < pacing.room then
      some { p with phase := .reading, queue := p.queue ++ [e], stretch := p.stretch - 1 }
    else none
  | .loading | .pausing _ _ | .finished | .stuck | .abandoned => none

def wake (p : Pipe) : Pipe :=
  match p.phase with
  | .pausing _ e => { p with stretch := longestStretch - 1 }.offer e
  | _ => p

def resume (p : Pipe) : Pipe :=
  match p.phase with
  | .loading => { p with phase := .reading, stretch := longestStretch - 1 }
  | .sending _ => { p with stretch := longestStretch }
  | _ => p

/-- How much there is to do: a line takes at most three steps. -/
def work (p : Pipe) : Nat :=
  3 * p.ahead.length +
    match p.phase with
    | .pausing _ _ => 3
    | .sending _ | .loading => 2
    | .reading => 1
    | .finished | .stuck | .abandoned => 0

theorem work_read (pacing : Pacing) (p : Pipe) (a : Arrival) :
    (p.read pacing a).work ≤ 3 * p.ahead.length + 3 := by
  unfold read
  split
  · simp [work]
  · simp only [keep, work]
    split <;> simp_all
  · dsimp only
    split <;> simp [offer, work]

theorem work_advance {pacing : Pacing} {p q : Pipe} (h : p.advance? pacing = some q) :
    q.work < p.work := by
  unfold advance? at h
  split at h
  · rename_i hp
    split at h
    · rename_i a rest hl
      cases h
      have := work_read pacing { p with ahead := rest } a
      simp only [work, hl, hp, List.length_cons] at this ⊢
      omega
    · split at h
      · cases h
      · cases h; simp [work, hp]
  · rename_i e hp
    split at h
    · cases h; simp [work, hp]
    · split at h
      · cases h; simp [work, hp]
      · cases h
  all_goals cases h

theorem work_wake {p : Pipe} {d : Duration} {e : TestEvent} (h : p.phase = .pausing d e) :
    p.wake.work < p.work := by
  simp [wake, h, offer, work]

theorem work_resume (p : Pipe) : p.resume.work ≤ p.work := by
  unfold resume
  split <;> rename_i h <;> simp [work, h]

theorem work_resume_lt {p : Pipe} (h : p.phase = .loading) : p.resume.work < p.work := by
  simp [resume, h, work]

def drain (p : Pipe) : Pipe := { p with queue := [] }

@[simp] theorem work_drain (p : Pipe) : p.drain.work = p.work := rfl

def hangUp (p : Pipe) : Pipe := { p with queue := [], received := false }

def cancel (p : Pipe) : Pipe :=
  match p.phase with
  | .finished | .stuck => p.hangUp
  | _ => { p.hangUp with phase := .abandoned }

/-- Lets the reader go on, through all its waits, until nothing but the receiver can help it. -/
def runOut (pacing : Pacing) (p : Pipe) : Pipe :=
  match h : p.advance? pacing with
  | some q =>
    have := work_advance h
    q.runOut pacing
  | none =>
    match hp : p.phase with
    | .pausing _ _ =>
      have := work_wake hp
      p.wake.runOut pacing
    | .loading =>
      have := work_resume_lt hp
      p.resume.runOut pacing
    | _ => p
  termination_by p.work

end Pipe

end TestWatch
