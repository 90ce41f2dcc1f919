import TestWatch.Frame.Render

/-!
# The subtractions of a frame

Columns and lines are counted in unsigned numbers, so rendering fails where more is taken from a
number than it is. Here are all subtractions that a frame needs, those apart that stop at zero.
-/

namespace TestWatch

structure Subtraction where
  minuend : Nat
  subtrahend : Nat
  deriving DecidableEq, Repr

def Subtraction.Fits (s : Subtraction) : Prop := s.subtrahend ≤ s.minuend

instance (s : Subtraction) : Decidable s.Fits := inferInstanceAs (Decidable (_ ≤ _))

/-- Each tab goes on to the next tab stop. -/
def Text.tabSubtractions (cs : List Char) : List Subtraction :=
  (Text.tabColumns cs).map fun column => ⟨tabWidth, column % tabWidth⟩

/-- Each grant is taken from what is left of the budget. -/
def grantSubtractions (budget : Nat) : List Nat → List Subtraction
  | [] => []
  | n :: ns => ⟨budget, min n budget⟩ :: grantSubtractions (budget - min n budget) ns

namespace Aligned

def budget (a : Aligned) (width : Nat) : Nat := labelBudget a.lead a.right width

/-- What is shown of the label. -/
def fitted (a : Aligned) (width : Nat) : List Char := fitLabel (a.budget width) a.label

/-- Blanks fill the columns that the label leaves. -/
def padding (a : Aligned) (width : Nat) : Subtraction :=
  ⟨a.budget width, Text.width (a.fitted width)⟩

end Aligned

namespace Viewer

variable (v : Viewer) (m : Moment) (columns : Columns)

def packageSubtractions (width : Nat) (p : Package) : List Subtraction :=
  Text.tabSubtractions (packageLabel p).toList ++ [(v.alignedPackage m columns p).padding width]

/-- A running test that is shown takes its own line from its grant, and leaves out as much of its
output as is not shown. -/
def testSubtractions (width lines : Nat) (t : Test) : List Subtraction :=
  match lines with
  | 0 => []
  | n + 1 =>
    Text.tabSubtractions (testLabel t).toList ++ (v.alignedTest m columns t).padding width ::
      (if t.status = .running then
        ⟨n + 1, 1⟩ :: ⟨t.output.length, min (min n v.maxOutput) t.output.length⟩ ::
          (v.testOutput n t).flatMap fun l => Text.tabSubtractions l.toList
      else [])

def subtractions (width height : Nat) (r : Run) : List Subtraction :=
  let columns := Columns.ofRun m r
  let budget := height - fixedLines r
  let grants := r.grants v.maxOutput budget
  r.looseOutput.flatMap (fun l => Text.tabSubtractions l.toList) ++
    grantSubtractions budget ((Request.sorted (r.requests v.maxOutput)).map Request.lines) ++
    r.packages.values.flatMap (fun p => v.packageSubtractions m columns width p ++
      if p.isOpen then
        (r.testsIn p).flatMap fun t =>
          v.testSubtractions m columns width ((grants.get? ⟨p.name, t.name⟩).getD 0) t
      else []) ++
    [(v.alignedRun m columns r).padding width]

end Viewer

end TestWatch
