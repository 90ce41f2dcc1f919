import TestWatch.Run.Status
import TestWatch.Table.Basic
import TestWatch.Time.Timestamp

/-!
# Runs, packages and tests

What is known of one invocation of the test tool: its packages in the order in which they were
first seen, and its tests. A test is looked up by its package and its name; the order in which a
package shows its tests is kept beside them.
-/

namespace TestWatch

structure Test where
  package : String
  name : String
  status : Status
  /-- The event time and the wall time at which it was first seen. -/
  start : Timestamp
  wallStart : Timestamp
  elapsed : Duration
  output : List String
  /-- The latest status line that it printed. -/
  headline : Option String
  deriving DecidableEq, Repr

structure Package where
  name : String
  status : Status
  start : Timestamp
  wallStart : Timestamp
  elapsed : Duration
  counts : Counts
  /-- The latest line of its own output that was not blank. -/
  output : Option String
  /-- Test names in the order in which they were first seen. -/
  order : List String
  deriving DecidableEq, Repr

/-- A test by package and name, ordered by the package first. Both may hold slashes, so the text
does not tell two tests apart. -/
structure TestKey where
  package : String
  test : String
  deriving DecidableEq, Repr

/-- One invocation of the test tool. -/
structure Run where
  id : Nat
  status : Status
  packages : Table String Package
  tests : Table TestKey Test
  counts : Counts
  /-- How many packages have the status `running`. -/
  running : Nat
  /-- Lines that belong to no package, such as build output. -/
  looseOutput : List String
  start : Timestamp
  wallStart : Timestamp
  lastEvent : Timestamp
  finish : Option Timestamp
  deriving DecidableEq, Repr

namespace TestKey

def text (k : TestKey) : String := k.package ++ "/" ++ k.test

protected def compare (a b : TestKey) : Ordering :=
  (Ord.compare a.package b.package).then (Ord.compare a.test b.test)

end TestKey

namespace Package

def first (name : String) (time now : Timestamp) : Package :=
  ⟨name, .running, time, now, .zero, .zero, none, []⟩

end Package

namespace Run

def first (id : Nat) (time now : Timestamp) : Run :=
  ⟨id, .running, .empty, .empty, .zero, 0, [], time, now, time, none⟩

def package? (r : Run) (name : String) : Option Package := r.packages.get? name

def test? (r : Run) (package name : String) : Option Test := r.tests.get? ⟨package, name⟩

/-- The tests of a package in the order in which they are shown. -/
def testsIn (r : Run) (p : Package) : List Test := p.order.filterMap (r.test? p.name)

/-- A test or a package failed. -/
def hasFailures (r : Run) : Bool :=
  0 < r.counts.failed || r.packages.values.any fun p => p.status == .failed

/-- How long the run took, once it has ended. -/
def duration? (r : Run) : Option Duration := r.finish.map fun t => r.start.between t

def label (r : Run) : String := "#" ++ String.ofList (decimal r.id)

end Run

end TestWatch
