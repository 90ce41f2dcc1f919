import TestWatch.Frame.Render
import TestWatch.Settings.Span

/-!
# Settings

How a session looks and how it is paced. A settings file may choose some of this; what it does not
choose has a standard value, and a choice that makes no sense is corrected with a warning.
-/

namespace TestWatch

structure Settings where
  /-- Tests that take at least this long are listed in the report. -/
  slowThreshold : Duration
  /-- The most lines of output that are shown below a running test. -/
  maxOutput : Nat
  tick : Duration
  icon : InterruptedIcon
  capacity : Nat
  deriving DecidableEq, Repr

structure Choices where
  slowThreshold : Option Duration
  maxOutput : Option Nat
  tick : Option Duration
  icon : Option InterruptedIcon
  capacity : Option Nat
  deriving DecidableEq, Repr

inductive Warning where
  | unknownKeys (path : String) (keys : List String)
  | shortTick (tick : Duration)
  | noCapacity
  deriving DecidableEq, Repr

namespace Choices

def empty : Choices := ⟨none, none, none, none, none⟩

end Choices

namespace Settings

def standard : Settings := ⟨.ofMillis 500, 6, .ofMillis 100, .heuristic, 1024⟩

def minTick : Duration := .ofMillis 10

def choose (c : Choices) (s : Settings) : Settings :=
  ⟨c.slowThreshold.getD s.slowThreshold, c.maxOutput.getD s.maxOutput, c.tick.getD s.tick,
    c.icon.getD s.icon, c.capacity.getD s.capacity⟩

/-- The nearest settings that make sense. -/
def corrected (s : Settings) : Settings :=
  { s with
    tick := if s.tick < minTick then minTick else s.tick
    capacity := if s.capacity = 0 then 1 else s.capacity }

def corrections (s : Settings) : List Warning :=
  (if s.tick < minTick then [.shortTick s.tick] else []) ++
    (if s.capacity = 0 then [.noCapacity] else [])

end Settings

namespace Warning

/-- The keys of a warning: one on the same line, several on lines of their own. -/
def keyList : List String → String
  | [key] => "key: " ++ key
  | keys => keys.foldl (fun text key => text ++ "\n  - " ++ key) "keys:\n"

def text : Warning → String
  | unknownKeys path keys =>
    "in user config file " ++ path ++ ", ignoring unknown configuration " ++ keyList keys
  | shortTick tick =>
    "ui.tick-interval of " ++ String.ofList tick.spelled ++ " is too short, using " ++
      String.ofList Settings.minTick.spelled
  | noCapacity => "ui.channel-capacity must be at least 1, using 1"

end Warning

end TestWatch
