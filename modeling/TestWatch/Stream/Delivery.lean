import TestWatch.Session.Fault
import TestWatch.Stream.Pipe

/-!
# Deliveries on a clock

A receiver that takes whatever is queued as soon as the reader has to wait, or lets it have its
turn. Time passes only while the reader pauses, and a pause ends with a whole millisecond.
-/

namespace TestWatch

/-- Events that arrive together, so many milliseconds after the start. -/
structure Delivery where
  millis : Nat
  events : List TestEvent
  stored : String
  deriving DecidableEq, Repr

def Duration.endAfter (d : Duration) (millis : Nat) : Nat := millis + (d.nanos + 999999) / 1000000

namespace Pipe

def take (limit : Option Nat) (p : Pipe) : List TestEvent × Pipe :=
  match limit with
  | none => (p.queue, { p with queue := [] })
  | some n => (p.queue.take n, { p with queue := p.queue.drop n })

@[simp] theorem work_take (limit : Option Nat) (p : Pipe) : (p.take limit).2.work = p.work := by
  cases limit <;> rfl

def rawText (p : Pipe) : String := String.join (p.rawLines.map (· ++ "\n"))

/-- What the file for raw lines was given so far: all of them, once the reader has stopped by
itself. -/
def stored (p : Pipe) : String :=
  match p.phase with
  | .finished | .stuck => p.rawText
  | _ => (Spool.ofLines p.rawLines).given

/-- Everything that is received from the time `millis` on, up to a limit, and what is left. -/
def deliveries (pacing : Pacing) (limit : Option Nat) (millis : Nat) (p : Pipe) :
    List Delivery × Pipe :=
  if limit = some 0 then ([], p)
  else
    match h : p.advance? pacing with
    | some q =>
      have := work_advance h
      q.deliveries pacing limit millis
    | none =>
      let batch := (p.take limit).1
      let rest := (p.take limit).2
      let limit' := limit.map fun n => n - batch.length
      let now : List Delivery := if batch = [] then [] else [⟨millis, batch, p.stored⟩]
      if limit' = some 0 then (now, rest)
      else
        match h' : rest.resume.advance? pacing with
        | some q =>
          have : q.work < p.work := Nat.lt_of_lt_of_le (work_advance h')
            (Nat.le_trans (work_resume rest) (Nat.le_of_eq (work_take limit p)))
          let later := q.deliveries pacing limit' millis
          (now ++ later.1, later.2)
        | none =>
          match hp : rest.phase with
          | .pausing d _ =>
            have : rest.wake.work < p.work := Nat.lt_of_lt_of_eq (work_wake hp) (work_take limit p)
            let later := rest.wake.deliveries pacing limit' (d.endAfter millis)
            (now ++ later.1, later.2)
          | _ => (now, rest)
  termination_by p.work

end Pipe

structure Tally where
  events : Nat
  rawLines : Nat
  deriving DecidableEq, Repr

namespace Pipe

def rawFault? (raw : Option RawOutput) (p : Pipe) : Option Fault :=
  match raw with
  | some ⟨path, some cause⟩ => if p.rawLines = [] then none else some (.rawWrite path cause)
  | _ => none

/-- An error of the input matters only once the reader has come to it. -/
def inputFault? (source : String) (p : Pipe) : Option Fault :=
  match p.phase, p.ending with
  | .finished, .failed cause => some (.inputRead source cause)
  | _, _ => none

/-- What a reader that has stopped reports: raw lines that could not be written come first. -/
def result (source : String) (raw : Option RawOutput) (p : Pipe) : Except Fault Tally :=
  match p.rawFault? raw <|> p.inputFault? source with
  | some f => .error f
  | none => .ok ⟨p.events, p.rawLines.length⟩

end Pipe

end TestWatch
