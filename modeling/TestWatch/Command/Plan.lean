import TestWatch.Command.Failure
import TestWatch.Command.Options
import TestWatch.Session.Schedule

/-!
# From a command line to a session

What a command comes to before anything is read from its input: how the session looks, how it is
paced, where its input comes from and where raw lines go.
-/

namespace TestWatch

structure Surroundings where
  environment : Environment
  inputTerminal : Bool
  outputTerminal : Bool
  errorTerminal : Bool
  size : Option (Nat × Nat)

structure Plan where
  session : Session
  height : Nat
  pacing : Pacing
  tick : Duration
  input : Input
  rawOutput : Option String
  deriving DecidableEq, Repr

def Warning.topic : Warning → Topic
  | unknownKeys .. => .settingsFile
  | shortTick _ | noCapacity => .settingsValue

def Warning.message (w : Warning) : Message := ⟨.warning, w.topic, w.text⟩

namespace Options

/-- Options of the command line go before settings. -/
def override (o : Options) (s : Settings) : Settings :=
  { s with
    slowThreshold := o.slowThreshold.getD s.slowThreshold
    maxOutput := o.maxOutput.getD s.maxOutput }

def inputOf (o : Options) : Input :=
  match o.input with
  | some path => .file path
  | none => .standard

/-- Someone who types at a terminal is told that input is expected. -/
def hints (o : Options) (w : Surroundings) : List Message :=
  if o.input.isNone ∧ w.inputTerminal then
    [⟨.info, .command, "reading test events from standard input (pipe `go test -json` in)"⟩]
  else []

def look (o : Options) (w : Surroundings) : Look :=
  ⟨o.usesColor w.environment w.outputTerminal, w.environment.showsUnicode w.outputTerminal⟩

def planWith (o : Options) (w : Surroundings) (mode : Mode) (s : Settings) : Plan where
  session := {
    mode := mode
    viewer := ⟨o.look w, s.maxOutput, s.icon⟩
    reporter := ⟨o.look w, s.slowThreshold⟩
    terminal := w.environment.redraws w.outputTerminal
    width := (knownSize w.size).1 }
  height := (knownSize w.size).2
  pacing := ⟨mode.rate?, s.capacity, false⟩
  tick := s.tick
  input := o.inputOf
  rawOutput := o.rawOutput

/-- The plan, or why there is none, with the messages on the way. The rate is looked at first, then
the settings. -/
def plan (o : Options) (w : Surroundings) (fetch : String → Fetched) :
    List Message × Except Failure Plan :=
  match o.mode? with
  | none => ([], .error (.rate o.rate))
  | some mode =>
    match Settings.load w.environment fetch (.ofChoice o.settingsFile) with
    | .error f => ([], .error (.settings f))
    | .ok (s, warnings) =>
      (warnings.map Warning.message ++ o.hints w, .ok (o.planWith w mode (o.override s)))

end Options

end TestWatch
