import TestWatch.Run.Status
import TestWatch.Text.Sequence

/-!
# Colours, icons and rules

How the parts of a frame or a report are set off: with or without colour, in ASCII or in Unicode.
-/

namespace TestWatch

/-- With or without colour, with or without characters beyond ASCII. -/
structure Look where
  color : Bool
  unicode : Bool
  deriving DecidableEq, Repr, Inhabited

/-- What a piece of text is, as far as its colour goes. -/
inductive Style where
  | count
  | pass
  | fail
  | skip
  | interrupted
  | running
  | heading
  | dim
  deriving DecidableEq, Repr

namespace Style

/-- The parameters of the sequence that switches a style on: the colour first. -/
def codes : Style → List Char
  | count => "1".toList
  | pass => "32;1".toList
  | fail => "31;1".toList
  | skip => "33;1".toList
  | interrupted => "35;1".toList
  | running => "36;1".toList
  | heading => "1;4".toList
  | dim => "2".toList

def ofStatus : Status → Style
  | .passed => pass
  | .failed => fail
  | .skipped => skip
  | .interrupted => interrupted
  | .running => running
  | .paused | .unknown => dim

def on (s : Style) : List Char := Text.switchOn s.codes

end Style

namespace Look

def paint (look : Look) (s : Style) (text : List Char) : List Char :=
  if look.color then s.on ++ text ++ Text.reset else text

def rule (look : Look) (width : Nat) : List Char :=
  List.replicate width (if look.unicode then '─' else '-')

def spinner (look : Look) : List Char :=
  if look.unicode then ['⠋', '⠙', '⠹', '⠸', '⠼', '⠴', '⠦', '⠧', '⠇', '⠏'] else ['-', '\\', '|', '/']

def spinnerFrame (look : Look) (tick : Nat) : Char :=
  look.spinner.getD (tick % look.spinner.length) ' '

/-- The icon of a status; what is under way shows the spinner. -/
def icon (look : Look) (tick : Nat) : Status → Char
  | .passed => if look.unicode then '✓' else '+'
  | .failed => if look.unicode then '✗' else 'x'
  | .skipped => if look.unicode then '↷' else '~'
  | .interrupted => if look.unicode then '‼' else '!'
  | .running | .paused => look.spinnerFrame tick
  | .unknown => ' '

def paintedIcon (look : Look) (tick : Nat) (s : Status) : List Char :=
  look.paint (.ofStatus s) [look.icon tick s]

end Look

end TestWatch
