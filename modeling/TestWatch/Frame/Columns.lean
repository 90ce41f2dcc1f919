import TestWatch.Run.Basic
import TestWatch.Text.Style

/-!
# Lines with columns at the right edge

A package, a test or a whole run takes one line: an icon and a label at the left, counts and an
elapsed time at the right. The right-hand columns are as wide as their widest entry in the frame.
-/

namespace TestWatch

/-- An elapsed time in short: seconds up to a minute, minutes from there on, with one decimal.
Less than 50 milliseconds is nothing. -/
def Duration.short (d : Duration) : List Char :=
  if d < .ofMillis 50 then "0.0s".toList
  else if d < .ofMillis 60000 then d.seconds.tenths ++ ['s']
  else ((d.seconds.div ((Magnitude.ofQuotient? 60 1).getD .zero)).getD .zero).tenths ++ ['m']

def padLeft (width : Nat) (cs : List Char) : List Char :=
  List.replicate (width - cs.length) ' ' ++ cs

/-- A clock reading, and the rate of the replay that it belongs to. -/
structure Moment where
  now : Timestamp
  rate : Option Binary64
  deriving DecidableEq, Repr

namespace Moment

def since (m : Moment) (start : Timestamp) : Duration := (start.between m.now).rescale m.rate

/-- The elapsed time that is shown: the time so far for what is under way, and for what was
interrupted before a time was recorded; else the recorded time. -/
def elapsed (m : Moment) (status : Status) (recorded : Duration) (wallStart : Timestamp) :
    Duration :=
  match status with
  | .running | .paused => m.since wallStart
  | .interrupted => if recorded.nanos = 0 then m.since wallStart else recorded
  | .unknown | .passed | .failed | .skipped => recorded

def ofPackage (m : Moment) (p : Package) : Duration := m.elapsed p.status p.elapsed p.wallStart

def ofTest (m : Moment) (t : Test) : Duration := m.elapsed t.status t.elapsed t.wallStart

/-- A run that has ended shows its duration. -/
def ofRun (m : Moment) (r : Run) : Duration := r.duration?.getD (m.since r.wallStart)

def tick (m : Moment) : Nat := m.now.millis.natAbs / 100

end Moment

structure Columns where
  passed : Nat
  failed : Nat
  skipped : Nat
  elapsed : Nat
  deriving DecidableEq, Repr

namespace Columns

def none : Columns := ⟨0, 0, 0, 0⟩

def fit (w : Columns) (c : Counts) (d : Duration) : Columns :=
  ⟨max w.passed (decimal c.passed).length, max w.failed (decimal c.failed).length,
    max w.skipped (decimal c.skipped).length, max w.elapsed d.short.length⟩

def ofRun (m : Moment) (r : Run) : Columns :=
  r.packages.values.foldl (fun w p => w.fit p.counts (m.ofPackage p)) (none.fit r.counts (m.ofRun r))

/-- Between the columns of counts and the elapsed time, and between left and right, stand two
blanks. -/
def gutter : List Char := [' ', ' ']

def text (w : Columns) (look : Look) (c : Counts) (d : Duration) : List Char :=
  look.paint .pass (padLeft w.passed (decimal c.passed)) ++ ' ' ::
    (look.paint .fail (padLeft w.failed (decimal c.failed)) ++ ' ' ::
      (look.paint .skip (padLeft w.skipped (decimal c.skipped)) ++ gutter ++
        padLeft w.elapsed d.short))

end Columns

def labelBudget (lead right : List Char) (width : Nat) : Nat :=
  width - Text.width right - Columns.gutter.length - Text.width lead

def fitLabel (budget : Nat) (label : List Char) : List Char :=
  if budget < Text.width label then Text.cut budget label else label

/-- Two halves with blanks between them. Styles of the left half end before the gap. -/
def joinHalves (left right : List Char) (blanks : Nat) : List Char :=
  let closed := if left.contains Text.esc then left ++ Text.reset else left
  Text.ensureReset (closed ++ List.replicate blanks ' ' ++ Columns.gutter ++ right)

/-- A line with `lead` and `label` at the left and `right` at the right edge. If they do not fit,
the label is cut; the right-hand side never is. There is no such line if the label takes more
columns than are left for it even when it is cut. -/
def alignLine? (lead label right : List Char) (width : Nat) : Option (List Char) :=
  let budget := labelBudget lead right width
  let label := fitLabel budget label
  if Text.width label ≤ budget then
    some (joinHalves (lead ++ label) right (budget - Text.width label))
  else none

/-- A line with nothing at the right, cut at the right edge. -/
def fitLine (line : List Char) (width : Nat) : List Char :=
  Text.ensureReset (if width < Text.width line then Text.cut width line else line)

end TestWatch
