import TestWatch.Number.Decimal
import TestWatch.Text.Sequence

/-!
# Frames on a terminal

A display writes frames and texts. On a terminal each frame takes the place of the one before it,
and a text that is committed stays, with the next frame below it; elsewhere only committed texts
are written. The cursor always stands in the last row of the frame.

What is written goes to a sink that may be full after so many bytes; a text that fits in part is
written in part.
-/

namespace TestWatch

/-- A frame that will be replaced, or a text that stays. -/
inductive Call where
  | draw (frame : List Char)
  | commit (text : List Char)
  deriving DecidableEq, Repr

structure Display where
  terminal : Bool
  rows : Nat
  /-- The bytes that the sink still takes, if they are limited. -/
  room : Option Nat
  written : List Char
  deriving DecidableEq, Repr

def byteCount (cs : List Char) : Nat := cs.foldr (fun c n => c.utf8Size + n) 0

/-- The first `n` bytes of a text. Part of a character reads as a replacement character. -/
def takeBytes (n : Nat) : List Char → List Char
  | [] => []
  | c :: cs =>
    if c.utf8Size ≤ n then c :: takeBytes (n - c.utf8Size) cs
    else if n = 0 then [] else ['\uFFFD']

/-- The rows of a text; a newline at its end begins no row. -/
def rowCount (cs : List Char) : Nat :=
  cs.count '\n' + if cs = [] ∨ cs.getLast? = some '\n' then 0 else 1

namespace Display

def start (terminal : Bool) (room : Option Nat) : Display := ⟨terminal, 0, room, []⟩

/-- Writes a text; `false` if the sink did not take all of it. -/
def write (cs : List Char) (d : Display) : Display × Bool :=
  match d.room with
  | none => ({ d with written := d.written ++ cs }, true)
  | some n =>
    if byteCount cs ≤ n then
      ({ d with written := d.written ++ cs, room := some (n - byteCount cs) }, true)
    else ({ d with written := d.written ++ takeBytes n cs, room := some 0 }, false)

/-- The cursor goes up at most this far at once. -/
def maxUp : Nat := 65535

/-- The sequences that remove a frame: to its first column, to its first row, and erase from
there on. -/
def clearing (rows : Nat) : List Char :=
  if rows = 0 then []
  else
    (Text.esc :: "[1G".toList) ++
      (if rows = 1 then [] else Text.esc :: '[' :: (decimal (min (rows - 1) maxUp) ++ ['A'])) ++
      (Text.esc :: "[J".toList)

def clear (d : Display) : Display × Bool :=
  if d.rows = 0 then (d, true)
  else
    let (d, done) := d.write (clearing d.rows)
    if done then ({ d with rows := 0 }, true) else (d, false)

def draw (frame : List Char) (d : Display) : Display × Bool :=
  if !d.terminal then (d, true)
  else
    let (d, done) := d.clear
    if !done then (d, false)
    else
      let (d, done) := d.write frame
      if done then ({ d with rows := max 1 (rowCount frame) }, true) else (d, false)

def closed (text : List Char) : List Char :=
  if text.getLast? = some '\n' then text else text ++ ['\n']

def commit (text : List Char) (d : Display) : Display × Bool :=
  let (d, done) := d.clear
  if done then d.write (closed text) else (d, false)

def call (d : Display) : Call → Display × Bool
  | .draw frame => d.draw frame
  | .commit text => d.commit text

def run (d : Display) : List Call → Display × Bool
  | [] => (d, true)
  | c :: cs =>
    let (d, done) := d.call c
    if done then d.run cs else (d, false)

end Display

end TestWatch
