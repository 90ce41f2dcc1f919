import TestWatch.Command.Terminal
import TestWatch.Run.History
import TestWatch.Settings.Span

/-!
# The command line

Options are written as `--name value` or `--name=value`, flags as `--name` or with one letter, of
which several may be joined. Everything after `--` is an argument. An option that is not given may
be set by a variable of the environment.

What is wrong with a command line is told by the first thing that is wrong. A value is looked at
when the next argument has been read, so a flag that does not exist counts before a value that
makes no sense.
-/

namespace TestWatch

inductive ColorChoice where
  | auto
  | always
  | never
  deriving DecidableEq, Repr

/-- Why a command line is not carried out. -/
inductive Refusal where
  | help
  | version
  | unknownArgument
  /-- An option without a value, or with one that is not among its words. -/
  | invalidValue
  /-- A value that its reader does not accept. -/
  | valueValidation
  | argumentConflict
  | tooManyValues
  /-- An option without another one that it needs. -/
  | missingArgument
  deriving DecidableEq, Repr

/-- Help was asked for, so nothing is wrong. -/
def Refusal.isHelp : Refusal → Bool
  | help | version => true
  | _ => false

def Refusal.exitCode (r : Refusal) : Nat := if r.isHelp then 0 else 2

inductive Parameter where
  | input
  | replay
  | replayRate
  | slowThreshold
  | maxOutputLines
  | rawOutput
  | settingsFile
  | verbose
  | color
  | help
  | version
  deriving DecidableEq, Repr

namespace Parameter

def ofName? : String → Option Parameter
  | "replay" => some replay
  | "replay-rate" => some replayRate
  | "slow-threshold" => some slowThreshold
  | "max-output-lines" => some maxOutputLines
  | "raw-output" => some rawOutput
  | "user-config-file" => some settingsFile
  | "verbose" => some verbose
  | "color" => some color
  | "help" => some help
  | "version" => some version
  | _ => none

def ofLetter? : Char → Option Parameter
  | 'v' => some verbose
  | 'h' => some help
  | 'V' => some version
  | _ => none

def isFlag : Parameter → Bool
  | replay | verbose | help | version => true
  | _ => false

end Parameter

structure Given where
  input : Option String
  replay : Option Bool
  rate : Option Binary64
  slowThreshold : Option Duration
  maxOutput : Option Nat
  rawOutput : Option String
  settingsFile : Option String
  verbose : Option Bool
  color : Option ColorChoice
  deriving DecidableEq, Repr

structure Options where
  input : Option String
  replay : Bool
  rate : Binary64
  slowThreshold : Option Duration
  maxOutput : Option Nat
  rawOutput : Option String
  settingsFile : Option String
  verbose : Bool
  color : ColorChoice
  deriving DecidableEq, Repr

namespace Given

def nothing : Given := ⟨none, none, none, none, none, none, none, none, none⟩

def once {α β : Type} (old : Option α) (new : Except Refusal α) (set : α → β) :
    Except Refusal β :=
  if old.isSome then .error .argumentConflict else new.map set

def checked {α : Type} (v : Option α) : Except Refusal α :=
  match v with
  | some a => .ok a
  | none => .error .valueValidation

def word {α : Type} (v : Option α) : Except Refusal α :=
  match v with
  | some a => .ok a
  | none => .error .invalidValue

/-- A number that fits in 64 bits, with a plus sign or without. -/
def size? (s : String) : Option Nat :=
  let ds := match s.toList with
    | '+' :: ds => ds
    | ds => ds
  if ds = [] ∨ !ds.all Char.isDigit ∨ Nat.pow 2 64 ≤ digitsValue ds then none else some (digitsValue ds)

def color? : String → Option ColorChoice
  | "auto" => some .auto
  | "always" => some .always
  | "never" => some .never
  | _ => none

def truth? : String → Option Bool
  | "true" => some true
  | "false" => some false
  | _ => none

def give (p : Parameter) (v : String) (g : Given) : Except Refusal Given :=
  match p with
  | .input => once g.input (.ok v) fun x => { g with input := some x }
  | .replay => once g.replay (word (truth? v)) fun x => { g with replay := some x }
  | .replayRate =>
    once g.rate (checked (Binary64.ofText? v.toList)) fun x => { g with rate := some x }
  | .slowThreshold =>
    once g.slowThreshold (checked (Duration.ofSpan? v.toList)) fun x =>
      { g with slowThreshold := some x }
  | .maxOutputLines => once g.maxOutput (checked (size? v)) fun x => { g with maxOutput := some x }
  | .rawOutput => once g.rawOutput (.ok v) fun x => { g with rawOutput := some x }
  | .settingsFile => once g.settingsFile (.ok v) fun x => { g with settingsFile := some x }
  | .verbose => once g.verbose (word (truth? v)) fun x => { g with verbose := some x }
  | .color => once g.color (word (color? v)) fun x => { g with color := some x }
  | .help => .error .help
  | .version => .error .version

def switchOn (p : Parameter) (g : Given) : Except Refusal Given := g.give p "true"

/-- Gives a parameter the value of a variable, unless it has one. -/
def fromVariable (env : Environment) (name : String) (isSet : Bool) (p : Parameter) (g : Given) :
    Except Refusal Given :=
  match env name with
  | some v => if isSet then .ok g else g.give p v
  | none => .ok g

def withEnvironment (env : Environment) (g : Given) : Except Refusal Given := do
  let g ← g.fromVariable env "LIVETEST_USER_CONFIG_FILE" g.settingsFile.isSome .settingsFile
  let g ← g.fromVariable env "LIVETEST_VERBOSE" g.verbose.isSome .verbose
  g.fromVariable env "LIVETEST_COLOR" g.color.isSome .color

/-- The options in the end; a rate is of use only in a replay. -/
def finish (g : Given) : Except Refusal Options :=
  if g.rate.isSome ∧ g.replay = none then .error .missingArgument
  else .ok {
    input := g.input
    replay := g.replay.getD false
    rate := g.rate.getD (.ofNat 1)
    slowThreshold := g.slowThreshold
    maxOutput := g.maxOutput
    rawOutput := g.rawOutput
    settingsFile := g.settingsFile
    verbose := g.verbose.getD false
    color := g.color.getD .auto }

end Given

/-- A parameter whose value is still to come, or has come but was not looked at. -/
structure Awaited where
  parameter : Parameter
  value : Option String
  deriving DecidableEq, Repr

structure Reading where
  given : Given
  awaited : Option Awaited
  deriving DecidableEq, Repr

namespace Reading

def start : Reading := ⟨.nothing, none⟩

def settle (r : Reading) : Except Refusal Given :=
  match r.awaited with
  | none => .ok r.given
  | some ⟨_, none⟩ => .error .invalidValue
  | some ⟨p, some v⟩ => r.given.give p v

def take (p : Parameter) (v : String) (r : Reading) : Except Refusal Reading := do
  let g ← (← r.settle).give p v
  .ok ⟨g, none⟩

def flag (p : Parameter) (r : Reading) : Except Refusal Reading := do
  let g ← (← r.settle).switchOn p
  .ok ⟨g, none⟩

/-- A parameter whose value is the next argument. -/
def await (p : Parameter) (r : Reading) : Except Refusal Reading := do
  .ok ⟨← r.settle, some ⟨p, none⟩⟩

/-- An argument that is neither an option nor a value. There can be one. -/
def argument (s : String) (r : Reading) : Except Refusal Reading :=
  if r.given.input.isSome ∨ (r.awaited.any fun a => a.parameter == .input) then
    .error .unknownArgument
  else do
    .ok ⟨← r.settle, some ⟨.input, some s⟩⟩

/-- An option by its name, with the value that was joined to it. -/
def named (name : String) (v : Option String) (r : Reading) : Except Refusal Reading :=
  match Parameter.ofName? name, v with
  | none, _ => .error .unknownArgument
  | some p, some v => if p.isFlag then .error .tooManyValues else r.take p v
  | some p, none => if p.isFlag then r.flag p else r.await p

/-- Flags by their letters. -/
def letters (r : Reading) : List Char → Except Refusal Reading
  | [] => .ok r
  | c :: cs =>
    match Parameter.ofLetter? c with
    | none => .error .unknownArgument
    | some p => do (← r.flag p).letters cs

def splitName (cs : List Char) : String × Option String :=
  let name := String.ofList (cs.takeWhile (· != '='))
  match cs.dropWhile (· != '=') with
  | [] => (name, none)
  | _ :: v => (name, some (String.ofList v))

/-- An argument that does not look like an option: the value that is awaited, or one of its own. -/
def plain (s : String) (r : Reading) : Except Refusal Reading :=
  match r.awaited with
  | some ⟨p, none⟩ => .ok { r with awaited := some ⟨p, some s⟩ }
  | _ => r.argument s

def next (s : String) (r : Reading) : Except Refusal Reading :=
  match s.toList with
  | '-' :: '-' :: cs => r.named (splitName cs).1 (splitName cs).2
  | ['-'] => r.plain s
  | '-' :: cs => r.letters cs
  | _ => r.plain s

def all (r : Reading) : List String → Except Refusal Given
  | [] => r.settle
  | "--" :: rest => do (← rest.foldlM (fun r s => r.argument s) r).settle
  | s :: rest => do (← r.next s).all rest

end Reading

namespace Options

def read (env : Environment) (arguments : List String) : Except Refusal Options := do
  (← (← Reading.start.all arguments).withEnvironment env).finish

def usesColor (o : Options) (env : Environment) (terminal : Bool) : Bool :=
  match o.color with
  | .auto => env.showsColor terminal
  | .always => true
  | .never => false

/-- Live, or a replay at the rate that is given; `none` if that is no rate. -/
def mode? (o : Options) : Option Mode :=
  if o.replay then if o.rate.isNonneg then some (.replay o.rate) else none else some .live

end Options

end TestWatch
