import TestWatch.Frame.Render
import TestWatch.Report.Text
import TestWatch.Run.History
import TestWatch.Session.Display

/-!
# A live session

A session takes events in batches, shows the run that is under way, and reports every run once it
has ended: its last frame in full, and its report below that. When the stream ends, or the session
is told to stop, the run under way is closed and reported too.
-/

namespace TestWatch

structure Session where
  mode : Mode
  viewer : Viewer
  reporter : Reporter
  terminal : Bool
  width : Nat
  deriving DecidableEq, Repr

inductive Turn where
  | batch (events : List TestEvent)
  | tick
  | close
  deriving DecidableEq, Repr

/-- What a turn asks its surroundings: the clock, as often as it needs to, and the height of the
terminal. -/
structure Session.Reading where
  clock : Nat → Timestamp
  height : Nat

namespace Session.Reading

def still (now : Timestamp) (height : Nat) : Reading := ⟨fun _ => now, height⟩

def later (n : Nat) (x : Reading) : Reading := { x with clock := fun i => x.clock (n + i) }

end Session.Reading

/-- What is to be shown: the run under way, or one that has ended, with its report. -/
inductive Sight where
  | draw (now : Timestamp) (height : Nat) (run : Run)
  | report (now : Timestamp) (run : Run)

structure Standing where
  history : History
  reported : Nat
  deriving DecidableEq, Repr

namespace Session

def start : Standing := ⟨.empty, 0⟩

def frame? (s : Session) (now : Timestamp) (height : Nat) (r : Run) : Option (List Char) :=
  s.viewer.frame? ⟨now, s.mode.rate?⟩ s.width height r

def report? (s : Session) (now : Timestamp) (r : Run) : Option (List Char) :=
  (s.frame? now Viewer.unlimited r).map fun frame => frame ++ '\n' :: '\n' :: s.reporter.text r

def call? (s : Session) : Sight → Option Call
  | .draw now height r => (s.frame? now height r).map .draw
  | .report now r => (s.report? now r).map .commit

/-- Shows one sight after the other, up to the first that the display does not take; `none` if one
before it cannot be rendered. -/
def showAll? (s : Session) (d : Display) : List Sight → Option (Display × Bool)
  | [] => some (d, true)
  | w :: ws =>
    match s.call? w with
    | none => none
    | some c =>
      let (d, done) := d.call c
      if done then s.showAll? d ws else some (d, false)

def draw (s : Session) (x : Reading) (st : Standing) : List Sight :=
  if s.terminal then (st.history.underWay?.map (.draw (x.clock 0) x.height)).toList else []

/-- The runs that were not reported, up to the first that has not ended. -/
def due (st : Standing) : List Run :=
  (st.history.runs.drop st.reported).takeWhile fun r => r.finish.isSome

/-- Reports the runs that are due, each at a clock reading of its own. -/
def reportDue (x : Reading) (st : Standing) : Standing × List Sight :=
  (⟨st.history, st.reported + (due st).length⟩,
    (due st).mapIdx fun i r => .report (x.clock i) r)

def turn (s : Session) (x : Reading) (t : Turn) (st : Standing) : Standing × List Sight :=
  match t with
  | .batch events =>
    let timed := events.mapIdx fun i e => (x.clock i, e)
    let (st, sights) := reportDue (x.later events.length)
      { st with history := st.history.pushAll s.mode timed }
    (st, sights ++ s.draw (x.later (events.length + sights.length)) st)
  | .tick => (st, s.draw x st)
  | .close => reportDue (x.later 1) { st with history := st.history.finish s.mode (x.clock 0) }

def run (s : Session) (st : Standing) : List (Reading × Turn) → Standing × List Sight
  | [] => (st, [])
  | (x, t) :: ts =>
    let (st, sights) := s.turn x t st
    let (st, more) := s.run st ts
    (st, sights ++ more)

end Session

end TestWatch
