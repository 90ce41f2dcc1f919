import TestWatch.Session.Live
import TestWatch.Session.Outcome
import TestWatch.Stream.Delivery

/-!
# A session on a clock

The batches of a stream and the ticks of the clock in the order in which they happen. A tick falls
on every multiple of the interval, and is noticed at the next whole millisecond. The stream ends at
the moment of its last batch. Each turn knows what the file for raw lines was given by then, because
a display that fails leaves the file like that.
-/

namespace TestWatch

namespace Session

def tickMillis (interval : Duration) (k : Nat) : Nat :=
  Duration.endAfter ⟨k * interval.nanos⟩ 0

/-- The number of the first tick that is noticed no earlier than `millis`. -/
def ticksBefore (interval : Duration) (millis : Nat) : Nat :=
  if millis = 0 then 0 else (millis - 1) * 1000000 / interval.nanos + 1

structure Moment where
  millis : Nat
  turn : Turn
  stored : String
  deriving DecidableEq, Repr

def arrival (d : Delivery) : Moment := ⟨d.millis, .batch d.events, d.stored⟩

/-- The batches with the ticks between them, from tick number `k` on; the last batch before them
left the file for raw lines with `stored`. -/
def interleave (interval : Duration) (k : Nat) (stored : String) : List Delivery → List Moment
  | [] => []
  | d :: ds =>
    let next := max k (ticksBefore interval d.millis)
    (List.range' k (next - k)).map (fun i => ⟨tickMillis interval i, .tick, stored⟩) ++
      arrival d :: interleave interval next d.stored ds

def lastMillis (ds : List Delivery) : Nat := (ds.getLast?.map Delivery.millis).getD 0

/-- All turns of a session: a tick at the start, the stream, and its end, where the file for raw
lines holds `stored`. No interval is longer than the longest wait. -/
def schedule (interval : Duration) (ds : List Delivery) (stored : String) : List Moment :=
  ⟨0, .tick, ""⟩ :: interleave (interval.min Pacing.longestDelay) 1 "" ds ++
    [⟨lastMillis ds, .close, stored⟩]

def signalledSchedule (ds : List Delivery) (stored : String) : List Moment :=
  ds.map arrival ++ [⟨lastMillis ds, .tick, stored⟩, ⟨lastMillis ds, .close, stored⟩]

def onClock (clock : Nat → Timestamp) (height : Nat) (ms : List Moment) : List (Reading × Turn) :=
  ms.map fun m => (.still (clock m.millis) height, m.turn)

def goingClock (start : Timestamp) (millis : Nat) : Timestamp := start.add (.ofMillis millis)

end Session

structure Connections where
  source : String
  raw : Option RawOutput
  display : Display
  height : Nat
  sinkFault : String
  deriving DecidableEq, Repr

structure Performance where
  result : Except Fault Outcome
  display : Display
  stored : String

namespace Session

def storedAtFailure? (s : Session) (clock : Nat → Timestamp) (height : Nat) (st : Standing)
    (d : Display) : List Moment → Option String
  | [] => none
  | m :: ms =>
    let (st, sights) := s.turn (.still (clock m.millis) height) m.turn st
    match s.showAll? d sights with
    | some (d, true) => s.storedAtFailure? clock height st d ms
    | _ => some m.stored

/-- A session whose stream has been read to its end by `pipe`: its turns go to the display, and an
error of the stream comes out once everything has been shown. When the display fails, the reader is
left alone where it is. `none` if the session breaks off at a frame that cannot be rendered. -/
def perform? (s : Session) (c : Connections) (pipe : Pipe) (signalled : Bool)
    (clock : Nat → Timestamp) (moments : List Moment) : Option Performance :=
  let (st, sights) := s.run start (onClock clock c.height moments)
  (s.showAll? c.display sights).map fun (display, done) =>
    if done then
      ⟨(pipe.result c.source c.raw).map fun _ => Outcome.ofHistory st.history signalled, display,
        pipe.rawText⟩
    else
      ⟨.error (.write c.sinkFault), display,
        (s.storedAtFailure? clock c.height start c.display moments).getD pipe.rawText⟩

end Session

end TestWatch
