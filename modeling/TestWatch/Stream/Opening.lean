import TestWatch.Session.Fault
import TestWatch.Stream.Input

/-!
# Opening a stream

Before anything is read, the input is opened, and then the file for raw lines is created. So an
input that cannot be opened leaves that file as it was.
-/

namespace TestWatch

namespace Input

def openFault (i : Input) (cause : String) : Fault :=
  match i with
  | standard => .inputRead i.label cause
  | file path => .inputOpen path cause

variable {m : Type → Type} [Monad m] {α β : Type}

/-- Opens an input with `enter`, and creates the file for raw lines, if there is one, with
`create`. -/
def opening (enter : Input → m (Except String α)) (create : String → m (Except String β))
    (raw : Option String) (i : Input) : m (Except Fault (α × Option β)) := do
  match ← enter i with
  | .error cause => return .error (i.openFault cause)
  | .ok a =>
    match raw with
    | none => return .ok (a, none)
    | some path =>
      match ← create path with
      | .error cause => return .error (.rawCreate path cause)
      | .ok b => return .ok (a, some b)

end Input

end TestWatch
