import TestWatch.Frame.Columns
import TestWatch.Frame.Layout

/-!
# The live view of a run

A frame shows a run in a given number of lines: loose output, a line for each package with its
open tests below it, and a line for the whole run. Everything but the lines of tests is fixed;
tests get what is left of the height. If even the fixed lines are too many, the first of them are
dropped.

What the lines say is laid out first. A line is written only after that, and a frame exists if each
of its lines can be written, those that are dropped included.
-/

namespace TestWatch

/-- The icon of a package that was interrupted: a guess from what it did before, or one of its
own. -/
inductive InterruptedIcon where
  | heuristic
  | fixed
  deriving DecidableEq, Repr, Inhabited

structure Viewer where
  look : Look
  maxOutput : Nat
  icon : InterruptedIcon
  deriving DecidableEq, Repr

/-- The parts of a line with columns at the right edge. -/
structure Aligned where
  lead : List Char
  label : List Char
  right : List Char
  deriving DecidableEq, Repr

inductive Entry where
  | aligned (parts : Aligned)
  | cut (line : List Char)
  | whole (line : List Char)
  deriving DecidableEq, Repr

def Entry.text? (width : Nat) : Entry → Option (List Char)
  | aligned a => alignLine? a.lead a.label a.right width
  | cut line => some (fitLine line width)
  | whole line => some line

namespace Viewer

def packageStatus (v : Viewer) (p : Package) : Status :=
  match p.status, v.icon with
  | .interrupted, .heuristic =>
    if 0 < p.counts.failed then .failed else if p.order = [] then .skipped else .passed
  | s, _ => s

/-- The lines that belong to no package, and a blank line after them. -/
def looseEntries (r : Run) : List Entry :=
  r.looseOutput.map (fun l => .cut (Text.expandTabs l.toList)) ++
    (if r.looseOutput = [] then [] else [.whole []])

/-- The name of an open package; a finished one shows the last line it printed. -/
def packageLabel (p : Package) : String := if p.isOpen then p.name else p.output.getD p.name

def alignedPackage (v : Viewer) (m : Moment) (columns : Columns) (p : Package) : Aligned :=
  ⟨v.look.paintedIcon m.tick (v.packageStatus p) ++ [' '],
    Text.expandTabs (packageLabel p).toList, columns.text v.look p.counts (m.ofPackage p)⟩

def testLabel (t : Test) : String := t.headline.getD ("=== RUN   " ++ t.name)

def alignedTest (v : Viewer) (m : Moment) (columns : Columns) (t : Test) : Aligned :=
  ⟨[' ', ' '] ++ v.look.paintedIcon m.tick t.status ++ [' '],
    Text.expandTabs (testLabel t).toList, padLeft columns.elapsed (m.ofTest t).short⟩

def alignedRun (v : Viewer) (m : Moment) (columns : Columns) (r : Run) : Aligned :=
  ⟨[], v.look.paint (.ofStatus r.status) r.status.word.toList,
    columns.text v.look r.counts (m.ofRun r)⟩

/-- The latest lines that a running test printed. -/
def testOutput (v : Viewer) (lines : Nat) (t : Test) : List String :=
  if t.status = .running then
    t.output.drop (t.output.length - min (min lines v.maxOutput) t.output.length)
  else []

def outputEntry (line : String) : Entry :=
  .cut ([' ', ' ', ' ', ' '] ++ Text.expandTabs line.toList)

def testEntries (v : Viewer) (m : Moment) (columns : Columns) (lines : Nat) (t : Test) :
    List Entry :=
  match lines with
  | 0 => []
  | n + 1 => .aligned (v.alignedTest m columns t) :: (v.testOutput n t).map outputEntry

def packageEntries (v : Viewer) (m : Moment) (columns : Columns) (grants : Table TestKey Nat)
    (r : Run) (p : Package) : List Entry :=
  .aligned (v.alignedPackage m columns p) ::
    (if p.isOpen then
      (r.testsIn p).flatMap fun t =>
        v.testEntries m columns ((grants.get? ⟨p.name, t.name⟩).getD 0) t
    else [])

def footer (v : Viewer) (m : Moment) (columns : Columns) (width : Nat) (r : Run) : List Entry :=
  (if r.packages.isEmpty then [] else [.whole (v.look.paint .dim (v.look.rule width))]) ++
    [.aligned (v.alignedRun m columns r)]

/-- The number of lines that do not belong to tests. -/
def fixedLines (r : Run) : Nat :=
  r.looseOutput.length + (if r.looseOutput = [] then 0 else 1) + r.packages.size +
    (if r.packages.isEmpty then 0 else 1) + 1

/-- What all lines of a frame say, as many as there may be. -/
def entries (v : Viewer) (m : Moment) (width height : Nat) (r : Run) : List Entry :=
  let columns := Columns.ofRun m r
  let grants := r.grants v.maxOutput (height - fixedLines r)
  looseEntries r ++ r.packages.values.flatMap (v.packageEntries m columns grants r) ++
    v.footer m columns width r

/-- The lines of a frame: the last ones, if there are more than the height. -/
def lines? (v : Viewer) (m : Moment) (width height : Nat) (r : Run) : Option (List (List Char)) :=
  ((v.entries m width height r).mapM (Entry.text? width)).map fun all =>
    all.drop (all.length - height)

def frame? (v : Viewer) (m : Moment) (width height : Nat) (r : Run) : Option (List Char) :=
  (v.lines? m width height r).map (List.intercalate ['\n'])

def unlimited : Nat := Nat.pow 2 64 - 1

end Viewer

end TestWatch
