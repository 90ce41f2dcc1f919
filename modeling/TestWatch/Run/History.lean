import TestWatch.Run.Progress

/-!
# The history of runs

A stream holds one run after the other. A run begins with the first event that finds none under
way and ends when the last of its packages has reported an outcome; `finish` ends one that the
stream leaves open. All runs are kept in the order in which they began, with the position of the one
that is under way.
-/

namespace TestWatch

/-- Whether events come as they happen, or from a recording with its delays multiplied by a
rate (zero: without delay). -/
inductive Mode where
  | live
  | replay (rate : Binary64)
  deriving DecidableEq, Repr, Inhabited

namespace Mode

def rate? : Mode → Option Binary64
  | live => none
  | replay rate => some rate

def ofRate? : Option Binary64 → Mode
  | none => live
  | some rate => replay rate

def isPaced : Mode → Bool
  | live => false
  | replay rate => rate.isPositive

end Mode

/-- Every run so far, oldest first, and the position of the one under way. -/
structure History where
  runs : List Run
  current : Option Nat
  deriving DecidableEq, Repr

namespace Run

/-- When a run ends at clock reading `now`. A paced replay counts the wall time since the run
began, as time of the recording; one without delay ends with its latest event. -/
def endTime (mode : Mode) (now : Timestamp) (r : Run) : Timestamp :=
  match mode with
  | .live => now
  | .replay rate =>
    if rate.isPositive then r.start.add ((r.wallStart.between now).rescale (some rate))
    else r.lastEvent

def conclude (mode : Mode) (now : Timestamp) (r : Run) : Run :=
  { r with
    finish := some (r.endTime mode now)
    status := if r.hasFailures then .failed else .passed }

def settle (mode : Mode) (now : Timestamp) (r : Run) : Run :=
  if 0 < r.running ∨ r.packages.isEmpty then r else r.conclude mode now

/-- A package reports its outcome; the last to do so ends the run. -/
def pushOutcome (mode : Mode) (now : Timestamp) (e : TestEvent) (s : Status) (r : Run) : Run :=
  match r.finishPackage? e.package s e.elapsedTime with
  | some r => r.settle mode now
  | none => r

def applyToPackage (mode : Mode) (now : Timestamp) (e : TestEvent) (r : Run) : Run :=
  match e.action with
  | .output => r.modify e.package (Package.print e)
  | .pass => r.pushOutcome mode now e .passed
  | .fail => r.pushOutcome mode now e .failed
  | .skip => r.pushOutcome mode now e .skipped
  | _ => r

def push (mode : Mode) (now : Timestamp) (e : TestEvent) (r : Run) : Run :=
  if e.package = "" then (r.observe e.time).printLoose e
  else if e.test = "" then (r.enlist now e).applyToPackage mode now e
  else (r.enlist now e).applyToTest e

/-- The elapsed time of a package that is cut off when its run ends at `stop`. In a paced replay
it is measured from the start of the run, so that all packages agree with the run's total. -/
def cutOffElapsed (mode : Mode) (stop : Timestamp) (r : Run) (p : Package) : Duration :=
  if mode.isPaced then (r.start.between stop).minus (r.start.between p.start)
  else p.start.between stop

def cutOff (mode : Mode) (stop : Timestamp) (r : Run) (p : Package) : Package :=
  if p.status = .running then p.complete .interrupted (r.cutOffElapsed mode stop p) else p

def closingStatus (interrupted : Bool) (r : Run) : Status :=
  if interrupted then .interrupted
  else if r.hasFailures then .failed
  else if r.packages.isEmpty then .unknown
  else .passed

def close (mode : Mode) (now : Timestamp) (r : Run) : Run :=
  let stop := r.endTime mode now
  { r with
    packages := r.packages.mapValues (r.cutOff mode stop)
    running := 0
    finish := some stop
    status := r.closingStatus (r.packages.values.any fun p => p.status == .running) }

end Run

namespace History

def empty : History := ⟨[], none⟩

def underWay? (h : History) : Option Run := h.current.bind fun i => h.runs[i]?

def latest? (h : History) : Option Run := h.runs.getLast?

def ensureRun (time now : Timestamp) (h : History) : History :=
  if h.current.isSome then h
  else ⟨h.runs ++ [Run.first (h.runs.length + 1) time now], some h.runs.length⟩

/-- Changes the run under way. When that ends it, no run is under way any more. -/
def advance (f : Run → Run) (h : History) : History :=
  match h.current with
  | none => h
  | some i =>
    let runs := h.runs.modify i f
    ⟨runs, if runs[i]?.any fun r => r.finish.isSome then none else some i⟩

/-- An event without a package counts only if it is a build event. -/
def concerns (e : TestEvent) : Bool := e.package != "" || e.action.isBuild

def push (mode : Mode) (now : Timestamp) (e : TestEvent) (h : History) : History :=
  if concerns e then (h.ensureRun e.time now).advance (Run.push mode now e) else h

def pushAll (mode : Mode) (events : List (Timestamp × TestEvent)) (h : History) : History :=
  events.foldl (fun h e => h.push mode e.1 e.2) h

def finish (mode : Mode) (now : Timestamp) (h : History) : History :=
  h.advance (Run.close mode now)

@[simp] theorem runs_empty : empty.runs = [] := rfl

end History

end TestWatch
