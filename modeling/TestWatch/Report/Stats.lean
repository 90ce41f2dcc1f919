import TestWatch.Run.Basic

/-!
# Statistics of a run

Failed, skipped and slow tests, and the packages that stand out. Packages come in the order in
which they were first seen, and of equals the first one wins.
-/

namespace TestWatch

structure Group where
  package : Package
  tests : List Test
  deriving DecidableEq, Repr

/-- Keeps the better of two; the first one unless the second is strictly better. -/
def better {α : Type} (lt : α → α → Bool) (best x : α) : α := if lt best x then x else best

/-- The first of the best elements. -/
def firstBest? {α : Type} (lt : α → α → Bool) : List α → Option α
  | [] => none
  | x :: xs => some (xs.foldl (better lt) x)

namespace Run

/-- The tests of a package with a status, in the order in which they are shown. -/
def withStatus (s : Status) (r : Run) (p : Package) : List Test :=
  (r.testsIn p).filter fun t => t.status == s

def failures (r : Run) : List Group :=
  (r.packages.values.filter fun p =>
    !(r.withStatus .failed p).isEmpty || p.status == .failed).map fun p =>
      ⟨p, r.withStatus .failed p⟩

def skipped (r : Run) : List Group :=
  (r.packages.values.filter fun p => !(r.withStatus .skipped p).isEmpty).map fun p =>
    ⟨p, r.withStatus .skipped p⟩

/-- The tests that took at least the threshold, the slowest first. -/
def slowTests (threshold : Duration) (r : Run) : List Test :=
  ((r.packages.values.flatMap r.testsIn).filter fun t => threshold ≤ t.elapsed).mergeSort
    fun a b => b.elapsed ≤ a.elapsed

def fastest? (r : Run) : Option Package :=
  firstBest? (fun best p => p.elapsed < best.elapsed) r.packages.values

def slowest? (r : Run) : Option Package :=
  firstBest? (fun best p => best.elapsed < p.elapsed) r.packages.values

def mostTested? (r : Run) : Option Package :=
  firstBest? (fun best p => best.order.length < p.order.length) r.packages.values

end Run

end TestWatch
