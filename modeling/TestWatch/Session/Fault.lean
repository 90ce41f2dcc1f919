/-!
# What can go wrong in a session

Everything that fails does so at the edges: opening and reading the input, writing the raw lines,
and writing to the terminal. A fault carries the system's own words as its cause.
-/

namespace TestWatch

/-- Why a session could not start, or did not end with an outcome. -/
inductive Fault where
  | inputOpen (path cause : String)
  | inputRead (source cause : String)
  | rawCreate (path cause : String)
  | rawWrite (path cause : String)
  | write (cause : String)
  | interruptHandler (cause : String)
  deriving DecidableEq, Repr

namespace Fault

def message : Fault → String
  | inputOpen path _ => "failed to open input file `" ++ path ++ "`"
  | inputRead source _ => "failed to read from " ++ source
  | rawCreate path _ => "failed to create raw output file `" ++ path ++ "`"
  | rawWrite path _ => "failed to write to raw output file `" ++ path ++ "`"
  | write _ => "failed to write output"
  | interruptHandler _ => "failed to set up interrupt handler"

def cause : Fault → String
  | inputOpen _ c | inputRead _ c | rawCreate _ c | rawWrite _ c | write c | interruptHandler c => c

end Fault

/-- A message with its causes, each on lines of its own. -/
def causeChain (message : String) (causes : List String) : String :=
  causes.foldl (fun text c => text ++ "\n  caused by:\n  - " ++ c) message

def Fault.text (f : Fault) : String := causeChain f.message [f.cause]

end TestWatch
