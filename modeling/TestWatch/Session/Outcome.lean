import TestWatch.Run.History

/-!
# How a session ended

The outcome of a session, and the code that the program exits with.
-/

namespace TestWatch

structure Outcome where
  runs : Nat
  /-- A test or a package failed in one of them. -/
  failed : Bool
  /-- One of them ended before its packages did. -/
  interrupted : Bool
  signalled : Bool
  deriving DecidableEq, Repr

inductive ExitCode where
  | ok
  | setup
  | failed
  | incomplete
  | output
  | input
  deriving DecidableEq, Repr

namespace ExitCode

def toNat : ExitCode → Nat
  | ok => 0
  | setup => 96
  | failed => 100
  | incomplete => 106
  | output => 110
  | input => 111

end ExitCode

namespace Outcome

def ofHistory (h : History) (signalled : Bool) : Outcome :=
  ⟨h.runs.length, h.runs.any Run.hasFailures, h.runs.any fun r => r.status == .interrupted,
    signalled⟩

/-- A session that was cut short counts as incomplete, whatever failed in it. -/
def exitCode (o : Outcome) : ExitCode :=
  if o.interrupted || o.signalled then .incomplete else if o.failed then .failed else .ok

end Outcome

end TestWatch
