import Std.Time.DateTime.Timestamp
import TestWatch.Command.Plan
import TestWatch.Command.Usage
import TestWatch.Session.Schedule
import TestWatch.Stream.Opening

/-!
# The program

Connects a plan to the system: the environment, the files, the clock and the terminal. The reader
is a thread that moves the pipe of the stream; the session takes what is queued in it, and redraws
on every tick of the clock.
-/

namespace TestWatch

namespace Program

/-- An error of the system in its own words, with its number. -/
def cause : IO.Error → String
  | .alreadyExists _ code words | .interrupted _ code words | .noFileOrDirectory _ code words
  | .invalidArgument _ code words | .permissionDenied _ code words
  | .resourceExhausted _ code words | .inappropriateType _ code words
  | .noSuchThing _ code words | .otherError code words | .resourceBusy code words
  | .resourceVanished code words | .unsupportedOperation code words | .hardwareFault code words
  | .unsatisfiedConstraints code words | .illegalOperation code words | .protocolError code words
  | .timeExpired code words => words ++ " (os error " ++ toString code ++ ")"
  | .unexpectedEof => "unexpected end of file"
  | .userError words => words

def attempt {α : Type} (action : IO α) : IO (Except String α) := do
  return (← action.toBaseIO).mapError cause

def variableNames : List String :=
  Environment.displayNames ++
    ["XDG_CONFIG_HOME", "HOME", "LIVETEST_USER_CONFIG_FILE", "LIVETEST_VERBOSE", "LIVETEST_COLOR",
      Filter.variableName, "COLUMNS", "LINES"]

def environment : IO Environment := do
  let known ← variableNames.filterMapM fun name => do
    return (← IO.getEnv name).map fun value => (name, value)
  return fun name => known.lookup name

def statedSize (env : Environment) : Option (Nat × Nat) := do
  some (← Given.size? (← env "COLUMNS"), ← Given.size? (← env "LINES"))

def surroundings : IO Surroundings := do
  let env ← environment
  let output ← (← IO.getStdout).isTty
  return {
    environment := env
    inputTerminal := ← (← IO.getStdin).isTty
    outputTerminal := output
    errorTerminal := ← (← IO.getStderr).isTty
    size := if output then statedSize env else none }

def fetch (path : String) : IO Fetched := do
  match ← (IO.FS.readBinFile path).toBaseIO with
  | .ok bytes => return .bytes bytes.toList
  | .error (.noFileOrDirectory ..) => return .missing
  | .error e => return .failed (cause e)

def now : IO Timestamp := do
  return .ofUnixNanos (← Std.Time.Timestamp.now).toNanosecondsSinceUnixEpoch.val

partial def sleep (millis : Nat) : IO Unit := do
  let part := min millis 60000
  IO.sleep (UInt32.ofNat part)
  if part < millis then sleep (millis - part)

/-- The bytes of the next line, together with those of it that were read already. -/
partial def readRow (input : IO.FS.Stream) (row : Array UInt8) : IO (Array UInt8) := do
  match (← input.read 1).toList with
  | [] => return row
  | b :: _ => if b == Feed.newline then return row.push b else readRow input (row.push b)

/-- Lets the reader go on until it lacks a line, or has stopped. -/
partial def advance (pacing : Pacing) (pipe : IO.Ref Pipe) : IO Unit := do
  let moved ← pipe.modifyGet fun p =>
    match p.advance? pacing with
    | some q => (true, q)
    | none => (false, p)
  if moved then advance pacing pipe
  else
    match (← pipe.get).phase with
    | .pausing delay _ =>
      sleep (delay.endAfter 0)
      pipe.modify Pipe.wake
      advance pacing pipe
    | .sending _ =>
      IO.sleep 1
      pipe.modify Pipe.resume
      advance pacing pipe
    | _ => return

partial def read (pacing : Pacing) (input : IO.FS.Stream) (pipe : IO.Ref Pipe) : IO Unit := do
  match ← attempt (readRow input #[]) with
  | .error e =>
    pipe.modify fun p => { p with ending := .failed e }
    advance pacing pipe
  | .ok row =>
    let line := Line.ofBytes row.toList
    pipe.modify fun p =>
      if row.isEmpty then { p with ending := .complete }
      else if line.isBlank then p else { p with ahead := [.line line] }
    advance pacing pipe
    if (← pipe.get).phase == .reading then read pacing input pipe

def turn (plan : Plan) (t : Turn) (st : Standing) (d : Display) :
    IO (Option (Standing × Display)) := do
  let x : Session.Reading := .still (← now) plan.height
  let (st, sights) := plan.session.turn x t st
  match plan.session.showAll? d sights with
  | none => return none
  | some (d, _) =>
    let output ← IO.getStdout
    output.putStr (String.ofList d.written)
    output.flush
    return some (st, { d with written := [] })

/-- Takes turns until the reader has stopped and all that it read has been shown. The clock counts
in nanoseconds; `tick` is when it ticks next. -/
partial def watch (plan : Plan) (pipe : IO.Ref Pipe) (tick : Nat) (st : Standing) (d : Display) :
    IO (Option Standing) := do
  let clock ← IO.monoNanosNow
  if tick ≤ clock then
    match ← turn plan .tick st d with
    | none => return none
    | some (st, d) => watch plan pipe (clock + plan.tick.nanos) st d
  else
    let (batch, phase) ← pipe.modifyGet fun p => (((p.take none).1, p.phase), (p.take none).2)
    if batch != [] then
      match ← turn plan (.batch batch) st d with
      | none => return none
      | some (st, d) => watch plan pipe tick st d
    else if phase == .finished then return (← turn plan .close st d).map Prod.fst
    else
      IO.sleep 2
      watch plan pipe tick st d

def enter : Input → IO (Except String IO.FS.Stream)
  | .standard => do return .ok (← IO.getStdin)
  | .file path => attempt do return IO.FS.Stream.ofHandle (← IO.FS.Handle.mk path .read)

def create (path : String) : IO (Except String (String × IO.FS.Handle)) :=
  attempt do return (path, ← IO.FS.Handle.mk path .write)

def writeRaw (pipe : Pipe) (raw : String × IO.FS.Handle) : IO RawOutput := do
  match ← attempt do
    raw.2.putStr pipe.rawText
    raw.2.flush with
  | .ok _ => return ⟨raw.1, none⟩
  | .error e => return ⟨raw.1, some e⟩

/-- Carries out a plan; `none` if it breaks off at a frame. -/
def carryOut (plan : Plan) : IO (Option (Except Failure Outcome)) := do
  match ← plan.input.opening enter create plan.rawOutput with
  | .error f => return some (.error (.session f))
  | .ok (input, raw) =>
    let pipe ← IO.mkRef (Pipe.ofFeed ⟨[], .pending, none⟩)
    let _ ← IO.asTask (read plan.pacing input pipe) .dedicated
    let shown ← attempt (watch plan pipe 0 Session.start (.start plan.session.terminal none))
    pipe.modify Pipe.hangUp
    let p ← pipe.get
    let raw ← raw.mapM (writeRaw p)
    match shown with
    | .error e => return some (.error (.session (.write e)))
    | .ok none => return none
    | .ok (some st) =>
      let result := (p.result plan.input.label raw).map fun _ => Outcome.ofHistory st.history false
      return some (result.mapError .session)

/-- The code of a program that breaks off. -/
def brokenOff : UInt32 := 101

def conduct (o : Options) (w : Surroundings) : IO UInt32 := do
  let (filter, warnings) := Filter.ofEnvironment w.environment o.verbose
  let color := o.usesColor w.environment w.errorTerminal
  let tell (ms : List Message) : IO Unit := do (← IO.getStderr).putStr (filter.text color ms)
  tell warnings
  let fetched ← match (SettingsSource.ofChoice o.settingsFile).path? w.environment with
    | some path => fetch path
    | none => pure .missing
  let (messages, plan) := o.plan w fun _ => fetched
  tell messages
  let result ← match plan with
    | .error f => pure (some (.error f))
    | .ok plan => carryOut plan
  match result with
  | none =>
    (← IO.getStderr).putStr "attempt to subtract with overflow\n"
    return brokenOff
  | some result =>
    let last := Conclusion.of color result
    tell last.messages
    return UInt32.ofNat last.exitCode.toNat

def run (arguments : List String) : IO UInt32 := do
  let w ← surroundings
  match Options.read w.environment arguments with
  | .ok o => conduct o w
  | .error r =>
    (← if r.isHelp then IO.getStdout else IO.getStderr).putStr r.text
    return UInt32.ofNat r.exitCode

end Program

end TestWatch

def main (arguments : List String) : IO UInt32 := TestWatch.Program.run arguments
