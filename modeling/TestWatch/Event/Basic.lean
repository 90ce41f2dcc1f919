import TestWatch.Time.Timestamp

/-!
# Test events

What a test run reports while it goes: an action on a package or on one of its tests, at a time.
-/

namespace TestWatch

/-- The kind of an event. Every name that is not known stands for `unknown`. -/
inductive Action where
  | start
  | run
  | pause
  | resume
  | output
  | pass
  | fail
  | skip
  | bench
  | buildOutput
  | buildFail
  | buildPass
  | unknown
  deriving DecidableEq, Repr, Inhabited

namespace Action

/-- Build actions may come without a package. -/
def isBuild : Action → Bool
  | buildOutput | buildFail | buildPass => true
  | _ => false

def name : Action → String
  | start => "start"
  | run => "run"
  | pause => "pause"
  | resume => "resume"
  | output => "output"
  | pass => "pass"
  | fail => "fail"
  | skip => "skip"
  | bench => "bench"
  | buildOutput => "build-output"
  | buildFail => "build-fail"
  | buildPass => "build-pass"
  | unknown => "unknown"

def known : List Action :=
  [start, run, pause, resume, output, pass, fail, skip, bench, buildOutput, buildFail, buildPass]

def ofName (s : String) : Action := (known.find? fun a => a.name == s).getD unknown

theorem ofName_name (a : Action) : ofName a.name = a := by cases a <;> decide

end Action

/-- One event of a test run. The package is empty only for some build events, the test for
events of a package; the output is empty and the elapsed seconds absent where none are given. -/
structure TestEvent where
  time : Timestamp
  action : Action
  package : String
  test : String
  output : String
  elapsed : Option Binary64
  deriving DecidableEq, Repr

namespace TestEvent

def elapsedTime (e : TestEvent) : Duration := (e.elapsed.map Duration.ofSeconds).getD .zero

end TestEvent

end TestWatch
