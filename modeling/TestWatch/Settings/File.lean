import TestWatch.Command.Terminal
import TestWatch.Session.Fault
import TestWatch.Settings.Basic
import TestWatch.Text.Utf8
import TestWatch.Toml.Document

/-!
# The settings file

Where the file is found, and what it chooses. Keys that are not known are passed over with a
warning; a known key with a value of the wrong kind makes the whole file invalid.
-/

namespace TestWatch

inductive Fetched where
  | missing
  | failed (cause : String)
  | bytes (bytes : List UInt8)
  deriving DecidableEq, Repr

inductive SettingsSource where
  | standard
  | nowhere
  | file (path : String)
  deriving DecidableEq, Repr

inductive SettingsFault where
  | notFound (path : String)
  | unreadable (path cause : String)
  | invalid (path cause : String)
  deriving DecidableEq, Repr

namespace SettingsFault

def message : SettingsFault → String
  | notFound path => "user config file not found at " ++ path
  | unreadable path _ => "failed to read user config at " ++ path
  | invalid path _ => "failed to parse user config at " ++ path

def causes : SettingsFault → List String
  | notFound _ => []
  | unreadable _ cause | invalid _ cause => [cause]

def text (f : SettingsFault) : String := causeChain f.message f.causes

end SettingsFault

namespace SettingsSource

def noneWord : String := "none"

def ofChoice : Option String → SettingsSource
  | none => standard
  | some s => if s == noneWord then nowhere else file s

def join (base path : String) : String :=
  if base == "" || base.endsWith "/" then base ++ path else base ++ "/" ++ path

/-- The folder of the user's settings; a path that is not absolute is passed over. -/
def folder? (env : Environment) : Option String :=
  match (env "XDG_CONFIG_HOME").filter (·.startsWith "/") with
  | some path => some path
  | none => (env "HOME").map fun home => join home ".config"

def userPath? (env : Environment) : Option String :=
  (folder? env).map fun folder => join folder "livetest/config.toml"

def path? (env : Environment) : SettingsSource → Option String
  | standard => userPath? env
  | nowhere => none
  | file path => some path

end SettingsSource

namespace Choices

def span? : Toml.Value → Option Duration
  | .text s => Duration.ofSpan? s.toList
  | _ => none

def size? : Toml.Value → Option Nat
  | .integer n => if 0 ≤ n ∧ n < (Nat.pow 2 64 : Nat) then some n.toNat else none
  | _ => none

def iconNamed? (name : String) : Option InterruptedIcon :=
  if name == "heuristic" then some .heuristic
  else if name == "fixed" then some .fixed
  else none

/-- An icon by name, or as the one key of a table with nothing in it. -/
def icon? : Toml.Value → Option InterruptedIcon
  | .text s => iconNamed? s
  | .table _ [(name, .table _ [])] | .table _ [(name, .array [])] => iconNamed? name
  | _ => none

/-- A choice that may be left out; one that is there must be right. -/
def optional? {α : Type} (read : Toml.Value → Option α) :
    Option Toml.Value → Option (Option α)
  | some v => (read v).map some
  | none => some none

def knownKeys : List String :=
  ["slow-threshold", "max-output-lines", "tick-interval", "interrupted-icon", "channel-capacity"]

def ofMembers? (ms : Toml.Members) : Option Choices := do
  let slow ← optional? span? (ms.get? "slow-threshold")
  let most ← optional? size? (ms.get? "max-output-lines")
  let tick ← optional? span? (ms.get? "tick-interval")
  let icon ← optional? icon? (ms.get? "interrupted-icon")
  let capacity ← optional? size? (ms.get? "channel-capacity")
  some ⟨slow, most, tick, icon, capacity⟩

/-- Choices by position: all of them, in the order of the known keys. -/
def ofItems? : List Toml.Value → Option Choices
  | slow :: most :: tick :: icon :: capacity :: _ => do
    some ⟨some (← span? slow), some (← size? most), some (← span? tick), some (← icon? icon),
      some (← size? capacity)⟩
  | _ => none

/-- The one key under which a date appears where a table is expected. -/
def dateKey : String := "$__toml_private_datetime"

def ofSection? : Toml.Value → Option (Choices × List String)
  | .table _ ms => do
    let c ← ofMembers? ms
    some (c, (ms.map Prod.fst).filter fun k => !knownKeys.contains k)
  | .array items => (ofItems? items).map fun c => (c, [])
  | .date => some (empty, [dateKey])
  | _ => none

def sectionKey : String := "ui"

def ofFile? (ms : Toml.Members) : Option (Choices × List String) := do
  let (c, inner) ← match ms.get? sectionKey with
    | some v => ofSection? v
    | none => some (empty, [])
  let outer := (ms.map Prod.fst).filter (· != sectionKey)
  let unknown := outer ++ inner.map fun k => sectionKey ++ "." ++ k
  some (c, unknown.eraseDups.mergeSort fun a b => a ≤ b)

def ofText (path : String) (cs : List Char) : Except SettingsFault (Choices × List Warning) :=
  match Toml.Document.ofText? cs with
  | none => .error (.invalid path "the file is not valid TOML")
  | some ms =>
    match ofFile? ms with
    | none => .error (.invalid path "a setting has a value of the wrong kind")
    | some (c, []) => .ok (c, [])
    | some (c, unknown) => .ok (c, [.unknownKeys path unknown])

/-- The choices of a file as it was fetched; a file that is not there makes none. -/
def ofFetched (path : String) : Fetched → Except SettingsFault (Option (Choices × List Warning))
  | .missing => .ok none
  | .failed cause => .error (.unreadable path cause)
  | .bytes bs =>
    if Utf8.isValid bs then (ofText path (Utf8.decode bs)).map some
    else .error (.unreadable path "stream did not contain valid UTF-8")

/-- The choices from where they come from. Only a file that was asked for has to be there. -/
def load (env : Environment) (fetch : String → Fetched) (source : SettingsSource) :
    Except SettingsFault (Choices × List Warning) := do
  match source.path? env with
  | none => .ok (empty, [])
  | some path =>
    match ← ofFetched path (fetch path) with
    | some r => .ok r
    | none =>
      match source with
      | .file path => .error (.notFound path)
      | _ => .ok (empty, [])

end Choices

namespace Settings

def load (env : Environment) (fetch : String → Fetched) (source : SettingsSource) :
    Except SettingsFault (Settings × List Warning) := do
  let (c, warnings) ← Choices.load env fetch source
  let s := standard.choose c
  .ok (s.corrected, warnings ++ s.corrections)

end Settings

end TestWatch
