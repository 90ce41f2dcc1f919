import TestWatch.Frame.Columns
import TestWatch.Report.Stats

/-!
# The report of a run

What is printed once a run is over: its failures with their output, skipped and slow tests, the
packages that stand out, and the result. Every line ends with a newline.
-/

namespace TestWatch

structure Reporter where
  look : Look
  slowThreshold : Duration
  deriving DecidableEq, Repr

def plural (noun : String) (n : Nat) : List Char :=
  noun.toList ++ (if n = 1 then [] else ['s'])

namespace Reporter

def inBrackets (d : Duration) : List Char := '(' :: d.short ++ [')']

/-- A heading with a rule of the same length below. -/
def heading (rep : Reporter) (title : List Char) : List (List Char) :=
  [rep.look.paint .heading title, rep.look.rule title.length]

/-- An icon at the beginning of an indented line. -/
def item (rep : Reporter) (s : Status) (text : List Char) : List Char :=
  [' ', ' '] ++ rep.look.paintedIcon 0 s ++ ' ' :: text

def failedTest (rep : Reporter) (t : Test) : List (List Char) :=
  rep.item .failed (t.name.toList ++ ' ' :: inBrackets t.elapsed) ::
    t.output.map fun line => [' ', ' ', ' ', ' '] ++ line.toList

/-- The failures of a package. A package without a failed test shows the last line it printed. -/
def failedGroup (rep : Reporter) (g : Group) : List (List Char) :=
  rep.look.paint .fail g.package.name.toList ::
    (if g.tests = [] then [rep.item .failed (g.package.output.getD "package failed").toList]
    else g.tests.flatMap rep.failedTest)

def skippedGroup (rep : Reporter) (g : Group) : List (List Char) :=
  g.package.name.toList :: g.tests.map fun t => rep.item .skipped t.name.toList

/-- A slow test, with the elapsed time in a column. -/
def slowLine (rep : Reporter) (width : Nat) (t : Test) : List Char :=
  [' ', ' '] ++ rep.look.paint .count (padLeft width t.elapsed.short) ++
    (' ' :: ' ' :: t.package.toList) ++ ' ' :: t.name.toList

def slowWidth (ts : List Test) : Nat := (ts.map fun t => t.elapsed.short.length).foldl max 0

/-- A section with a blank line after it, unless it is empty. -/
def section? (rep : Reporter) (title : List Char) (body : List (List Char)) : List (List Char) :=
  if body = [] then [] else rep.heading title ++ body ++ [[]]

def slowTitle (rep : Reporter) : List Char :=
  "Slow Tests (>= ".toList ++ rep.slowThreshold.short ++ [')']

def notable (label : String) (p : Package) (what : List Char) : List Char :=
  label.toList ++ p.name.toList ++ ' ' :: what

def packageLines (rep : Reporter) (r : Run) : List (List Char) :=
  match r.fastest?, r.slowest?, r.mostTested? with
  | some fastest, some slowest, some most =>
    let n := r.packages.size
    let tests := most.order.length
    [[' ', ' '] ++ rep.look.paint .count (decimal n) ++ ' ' :: plural "package" n ++ " ran".toList,
      notable "  fastest:    " fastest (inBrackets fastest.elapsed),
      notable "  slowest:    " slowest (inBrackets slowest.elapsed),
      notable "  most tests: " most ('(' :: decimal tests ++ ' ' :: plural "test" tests ++ [')'])]
  | _, _, _ => ["  no packages ran".toList]

/-- The word for the run, its counts and how long it took. -/
def resultLine (rep : Reporter) (r : Run) : List Char :=
  let paint := rep.look.paint
  let c := r.counts
  [' ', ' '] ++ paint (.ofStatus r.status) r.status.word.toList ++ ' ' ::
    paint .count (decimal c.total) ++ ' ' :: plural "test" c.total ++ " run: ".toList ++
    paint .pass (decimal c.passed) ++ " passed, ".toList ++
    paint .fail (decimal c.failed) ++ " failed, ".toList ++
    paint .skip (decimal c.skipped) ++ " skipped".toList ++
    (if 0 < c.running then
      ", ".toList ++ paint .running (decimal c.running) ++ " still running".toList else []) ++
    " in ".toList ++ (r.duration?.getD .zero).short

def lines (rep : Reporter) (r : Run) : List (List Char) :=
  let slow := r.slowTests rep.slowThreshold
  rep.section? "Failures".toList (r.failures.flatMap rep.failedGroup) ++
    rep.section? "Skipped".toList (r.skipped.flatMap rep.skippedGroup) ++
    rep.section? rep.slowTitle (slow.map (rep.slowLine (slowWidth slow))) ++
    rep.heading "Packages".toList ++ rep.packageLines r ++ [[]] ++
    rep.heading "Overall Results".toList ++ [rep.resultLine r]

def text (rep : Reporter) (r : Run) : List Char := (rep.lines r).flatMap (· ++ ['\n'])

end Reporter

end TestWatch
