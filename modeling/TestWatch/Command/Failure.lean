import TestWatch.Command.Log
import TestWatch.Session.Outcome
import TestWatch.Settings.File

/-!
# Failures

Everything that can keep a command from its outcome, what the user is told of it, and the code that
the program then exits with.
-/

namespace TestWatch

inductive Failure where
  | settings (fault : SettingsFault)
  /-- A replay rate that is below zero, infinite or no number. -/
  | rate (rate : Binary64)
  /-- The workers of a session could not be started. -/
  | workers (cause : String)
  | session (fault : Fault)
  deriving DecidableEq, Repr

namespace Failure

def title : Failure → String
  | settings _ => "user config error"
  | rate _ => "invalid replay rate"
  | workers _ => "failed to create tokio runtime"
  | session _ => "live run failed"

/-- What led to the failure, each cause followed by its own. -/
def causes : Failure → List String
  | settings f => f.message :: f.causes
  | rate _ => []
  | workers cause => [cause]
  | session f => [f.message, f.cause]

def chain (f : Failure) : String := causeChain f.title f.causes

/-- What the user is told; a rate is set off where colour is used. -/
def text (color : Bool) : Failure → String
  | settings f => f.text
  | rate r =>
    "invalid replay rate " ++ highlight color "1" (String.ofList r.text) ++
      ": must be a finite number, zero or greater"
  | workers cause => (workers cause).chain
  | session f => f.text

def exitCode : Failure → ExitCode
  | settings _ | rate _ | workers _ => .setup
  | session f =>
    match f with
    | .inputOpen .. | .inputRead .. => .input
    | .rawCreate .. | .rawWrite .. | .write .. => .output
    | .interruptHandler .. => .setup

def message (color : Bool) (f : Failure) : Message := ⟨.error, .fault, f.text color⟩

end Failure

/-- How a command ended, and what the user is told last. -/
structure Conclusion where
  exitCode : ExitCode
  messages : List Message
  deriving DecidableEq, Repr

def Conclusion.of (color : Bool) : Except Failure Outcome → Conclusion
  | .ok o => ⟨o.exitCode, []⟩
  | .error f => ⟨f.exitCode, [f.message color]⟩

end TestWatch
