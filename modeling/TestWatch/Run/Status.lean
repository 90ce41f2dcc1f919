/-!
# Statuses and counts

The status of a test, a package or a run, and the number of tests in each group of statuses.
-/

namespace TestWatch

inductive Status where
  | unknown
  | running
  | passed
  | failed
  | skipped
  | interrupted
  | paused
  deriving DecidableEq, Repr, Inhabited

namespace Status

/-- Nothing changes a terminal status any more. -/
def isTerminal : Status → Bool
  | passed | failed | skipped | interrupted => true
  | unknown | running | paused => false

def name : Status → String
  | unknown => "unknown"
  | running => "running"
  | passed => "passed"
  | failed => "failed"
  | skipped => "skipped"
  | interrupted => "interrupted"
  | paused => "paused"

def word : Status → String
  | running | paused => "RUNNING"
  | passed => "PASSED"
  | failed => "FAILED"
  | skipped => "SKIPPED"
  | interrupted => "INTERRUPTED"
  | unknown => "UNKNOWN"

end Status

/-- Tests by status; `running` counts every test that is not finished, paused ones too. -/
@[ext]
structure Counts where
  passed : Nat
  failed : Nat
  skipped : Nat
  running : Nat
  deriving DecidableEq, Repr, Inhabited

namespace Counts

def zero : Counts := ⟨0, 0, 0, 0⟩

def total (c : Counts) : Nat := c.passed + c.failed + c.skipped + c.running

def enter (c : Counts) : Counts := { c with running := c.running + 1 }

def finish (s : Status) (c : Counts) : Counts :=
  match s with
  | .passed => { c with passed := c.passed + 1, running := c.running - 1 }
  | .failed => { c with failed := c.failed + 1, running := c.running - 1 }
  | .skipped => { c with skipped := c.skipped + 1, running := c.running - 1 }
  | _ => c

/-- Component by component. -/
def plus (a b : Counts) : Counts :=
  ⟨a.passed + b.passed, a.failed + b.failed, a.skipped + b.skipped, a.running + b.running⟩

@[simp] theorem zero_plus (c : Counts) : zero.plus c = c := by
  ext <;> simp [plus, zero]

theorem plus_left_comm (a b c : Counts) : a.plus (b.plus c) = b.plus (a.plus c) := by
  ext <;> simp [plus] <;> omega

theorem enter_plus (a b : Counts) : a.enter.plus b = (a.plus b).enter := by
  ext <;> simp [plus, enter]
  omega

theorem finish_plus (s : Status) {a : Counts} (b : Counts) (h : 0 < a.running) :
    (a.finish s).plus b = (a.plus b).finish s := by
  ext <;> cases s <;> simp [plus, finish] <;> omega

end Counts

end TestWatch
