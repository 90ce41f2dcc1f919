import TestWatch.Event.Basic
import TestWatch.Run.Basic
import TestWatch.Text.Blank

/-!
# What an event does to a run

Every event belongs to one package, or to none if it is build output. A package or a test comes
into being with its first event, whatever that is; a terminal action counts once.
-/

namespace TestWatch

def Action.outcome? : Action → Option Status
  | .pass => some .passed
  | .fail => some .failed
  | .skip => some .skipped
  | _ => none

namespace TestEvent

def line (e : TestEvent) : List Char := Text.trimEnd e.output.toList

def content (e : TestEvent) : List Char := Text.trimStart e.line

def key (e : TestEvent) : TestKey := ⟨e.package, e.test⟩

end TestEvent

namespace Test

def first (key : TestKey) (time now : Timestamp) : Test :=
  ⟨key.package, key.test, .running, time, now, .zero, [], none⟩

def setStatus (s : Status) (t : Test) : Test :=
  if t.status.isTerminal then t else { t with status := s }

/-- A status line begins with three equals signs or three dashes. -/
def isHeadline (content : List Char) : Bool :=
  "===".toList.isPrefixOf content || "---".toList.isPrefixOf content

/-- A line of output: a status line replaces the last one, a blank line is dropped. -/
def print (e : TestEvent) (t : Test) : Test :=
  if isHeadline e.content then { t with headline := some (String.ofList e.content) }
  else if e.content.isEmpty then t
  else { t with output := t.output ++ [String.ofList e.line] }

def complete (s : Status) (elapsed : Duration) (t : Test) : Test :=
  { t with status := s, elapsed := elapsed }

end Test

namespace Package

/-- A test that was not seen before goes to the end of the order. -/
def enter (name : String) (p : Package) : Package :=
  { p with order := p.order ++ [name], counts := p.counts.enter }

def record (s : Status) (p : Package) : Package := { p with counts := p.counts.finish s }

def print (e : TestEvent) (p : Package) : Package :=
  if e.content.isEmpty then p else { p with output := some (String.ofList e.line) }

def complete (s : Status) (elapsed : Duration) (p : Package) : Package :=
  { p with status := s, elapsed := elapsed }

end Package

namespace Run

def modify (name : String) (f : Package → Package) (r : Run) : Run :=
  { r with packages := r.packages.modify name f }

def modifyTest (key : TestKey) (f : Test → Test) (r : Run) : Run :=
  { r with tests := r.tests.modify key f }

def observe (time : Timestamp) (r : Run) : Run :=
  { r with lastEvent := r.lastEvent.latest time }

/-- A package that was not seen before is running and goes to the end. -/
def ensurePackage (name : String) (time now : Timestamp) (r : Run) : Run :=
  if (r.packages.get? name).isSome then r
  else
    { r with
      packages := r.packages.insert name (Package.first name time now)
      running := r.running + 1 }

def ensureTest (key : TestKey) (time now : Timestamp) (r : Run) : Run :=
  if (r.tests.get? key).isSome then r
  else
    { r.modify key.package (Package.enter key.test) with
      tests := r.tests.insert key (Test.first key time now)
      counts := r.counts.enter }

def enlist (now : Timestamp) (e : TestEvent) (r : Run) : Run :=
  let r := (r.observe e.time).ensurePackage e.package e.time now
  if e.test = "" then r else r.ensureTest e.key e.time now

/-- A line that belongs to no package; an empty one is dropped. -/
def printLoose (e : TestEvent) (r : Run) : Run :=
  if e.line.isEmpty then r else { r with looseOutput := r.looseOutput ++ [String.ofList e.line] }

/-- A package reports its outcome; `none` if it had one already. -/
def finishPackage? (name : String) (s : Status) (elapsed : Duration) (r : Run) : Option Run :=
  match r.packages.get? name with
  | some p =>
    if p.status.isTerminal then none
    else some { r.modify name (Package.complete s elapsed) with running := r.running - 1 }
  | none => none

/-- A test reports its outcome, unless it had one already. -/
def finishTest (key : TestKey) (s : Status) (elapsed : Duration) (r : Run) : Run :=
  match r.tests.get? key with
  | some t =>
    if t.status.isTerminal then r
    else
      { (r.modifyTest key (Test.complete s elapsed)).modify key.package (Package.record s) with
        counts := r.counts.finish s }
  | none => r

def applyToTest (e : TestEvent) (r : Run) : Run :=
  match e.action with
  | .run | .resume => r.modifyTest e.key (Test.setStatus .running)
  | .pause => r.modifyTest e.key (Test.setStatus .paused)
  | .output => r.modifyTest e.key (Test.print e)
  | .pass => r.finishTest e.key .passed e.elapsedTime
  | .fail => r.finishTest e.key .failed e.elapsedTime
  | .skip => r.finishTest e.key .skipped e.elapsedTime
  | _ => r

end Run

end TestWatch
