import TestWatch.Text.Width

/-!
# What a terminal prints

Text may hold escape sequences, which a terminal obeys and does not print. The machine below
follows them as a terminal does: `step` takes one character and tells what is printed. The width
of a text is the width of what is printed, so it does not count escape sequences.

An unfinished sequence swallows the rest of the text.
-/

namespace TestWatch.Text

def esc : Char := '\x1b'

namespace Terminal

inductive Mode where
  | ground
  | escape
  | escapeIntermediate
  /-- A control sequence, after its bracket, within its parameters, and so on. -/
  | csiEntry
  | csiParameter
  | csiIntermediate
  | csiIgnore
  /-- A device control string, with its own parameters, and then its data. -/
  | dcsEntry
  | dcsParameter
  | dcsIntermediate
  | dcsData
  /-- An operating system command, such as a window title or a link. -/
  | osc
  /-- A string without any effect. -/
  | ignored
  deriving DecidableEq, Repr, Inhabited

def isCancel (c : Char) : Bool := c == '\x18' || c == '\x1a'

/-- Of the control characters only the newline prints, and it prints itself. -/
def control (c : Char) : List Char := if c = '\n' then ['\n'] else []

def within (lo hi : Nat) (c : Char) : Bool := lo ≤ c.toNat && c.toNat ≤ hi

def isFinal (c : Char) : Bool := within 0x40 0x7E c

def isIntermediate (c : Char) : Bool := within 0x20 0x2F c

def isParameter (c : Char) : Bool := within 0x30 0x3B c

/-- A mark that may only stand in front of all parameters. -/
def isPrivate (c : Char) : Bool := within 0x3C 0x3F c

/-- The characters that cancel or restart a sequence of any kind. -/
def orElse (mode : Mode) (c : Char) : Mode :=
  if isCancel c then .ground else if c = esc then .escape else mode

def afterEscape (c : Char) : Mode :=
  if isCancel c then .ground
  else if c = '[' then .csiEntry
  else if c = ']' then .osc
  else if c = 'P' then .dcsEntry
  else if c = 'X' ∨ c = '^' ∨ c = '_' then .ignored
  else if isIntermediate c then .escapeIntermediate
  else if within 0x30 0x7E c then .ground
  else .escape

def afterCsi (mode : Mode) (c : Char) : Mode :=
  if isFinal c then .ground
  else
    match mode with
    | .csiEntry =>
      if isIntermediate c then .csiIntermediate
      else if isParameter c || isPrivate c then .csiParameter
      else orElse mode c
    | .csiParameter =>
      if isIntermediate c then .csiIntermediate
      else if isPrivate c then .csiIgnore
      else orElse mode c
    | .csiIntermediate =>
      if isParameter c || isPrivate c then .csiIgnore else orElse mode c
    | mode => orElse mode c

def afterDcs (mode : Mode) (c : Char) : Mode :=
  if isFinal c then .dcsData
  else
    match mode with
    | .dcsEntry =>
      if isIntermediate c then .dcsIntermediate
      else if isParameter c || isPrivate c then .dcsParameter
      else orElse mode c
    | .dcsParameter =>
      if isIntermediate c then .dcsIntermediate
      else if isPrivate c then .ignored
      else orElse mode c
    | .dcsIntermediate =>
      if isParameter c || isPrivate c then .ignored else orElse mode c
    | mode => orElse mode c

/-- Device control data are bytes, and the byte 0x9C ends them even within a character. Bytes of
that character that are left over print a replacement each, unless they are controls. -/
def afterData (c : Char) : Mode × List Char :=
  if c.toNat < 0x80 then (orElse .dcsData c, [])
  else
    match (String.utf8EncodeChar c).dropWhile (· != 0x9C) with
    | [] => (.dcsData, [])
    | _ :: rest => (.ground, (rest.filter (0x9F < ·)).map fun _ => '\ufffd')

def step (mode : Mode) (c : Char) : Mode × List Char :=
  match mode with
  | .ground =>
    if c = esc then (.escape, [])
    else if c.toNat < 0x20 ∨ within 0x80 0x9F c then (.ground, control c)
    else (.ground, [c])
  | .escape => (afterEscape c, control c)
  | .escapeIntermediate =>
    (if within 0x30 0x7E c then .ground else orElse .escapeIntermediate c, control c)
  | .csiEntry | .csiParameter | .csiIntermediate | .csiIgnore => (afterCsi mode c, control c)
  | .dcsEntry | .dcsParameter | .dcsIntermediate => (afterDcs mode c, [])
  | .dcsData => afterData c
  | .osc => (if c = '\x07' then .ground else orElse .osc c, [])
  | .ignored => (orElse .ignored c, [])

def print (mode : Mode) : List Char → List Char
  | [] => []
  | c :: cs => (step mode c).2 ++ print (step mode c).1 cs

def after (mode : Mode) : List Char → Mode
  | [] => mode
  | c :: cs => after (step mode c).1 cs

theorem print_append (mode : Mode) (a b : List Char) :
    print mode (a ++ b) = print mode a ++ print (after mode a) b := by
  induction a generalizing mode with
  | nil => rfl
  | cons c a ih => simp [print, after, ih]

end Terminal

def visible (cs : List Char) : List Char := Terminal.print .ground cs

/-- The columns that a text takes; escape sequences take none. -/
def width (cs : List Char) : Nat := plainWidth (visible cs)

@[simp] theorem width_nil : width [] = 0 := rfl

end TestWatch.Text
