import TestWatch.Event.Line
import TestWatch.Text.Utf8

/-!
# What is read

The input is a string of bytes that either comes to an end, breaks off with an error, or stays
open. It is split into lines; a line without a newline counts only where the input has ended.

The bytes are all at hand, or they come in blocks, and then each block has to be waited for.
-/

namespace TestWatch

inductive Input where
  | standard
  | file (path : String)
  deriving DecidableEq, Repr

namespace Input

def label : Input → String
  | standard => "standard input"
  | file path => "`" ++ path ++ "`"

end Input

/-- How the input goes on after its last byte. -/
inductive Ending where
  | complete
  | failed (cause : String)
  | pending
  deriving DecidableEq, Repr

structure Feed where
  bytes : List UInt8
  ending : Ending
  /-- The size of the blocks in which it comes, unless everything is at hand. -/
  block : Option Nat
  deriving DecidableEq, Repr

/-- The parts of a list, each up to and including an element that satisfies `p`; what follows the
last of these is a part too, unless it is empty. -/
def splitAfter {α : Type} (p : α → Bool) (xs : List α) : List (List α) :=
  match h : xs.dropWhile (fun x => !p x) with
  | [] => if xs.isEmpty then [] else [xs]
  | y :: ys =>
    have : ys.length < xs.length := by
      have := (List.dropWhile_suffix (l := xs) fun x => !p x).length_le
      rw [h] at this
      exact this
    (xs.takeWhile (fun x => !p x) ++ [y]) :: splitAfter p ys
  termination_by xs.length

namespace Feed

def newline : UInt8 := 10

def rows (f : Feed) : List (List UInt8) :=
  let all := splitAfter (· == newline) f.bytes
  match f.ending with
  | .complete => all
  | .failed _ | .pending => all.filter fun r => r.getLast? == some newline

end Feed

namespace Line

def ofBytes (bs : List UInt8) : Line := read (String.ofList (Utf8.decode bs))

def isBlank : Line → Bool
  | event _ => false
  | raw text => (Text.trim text.toList).isEmpty

end Line

namespace Feed

/-- The lines that count: events, and other lines that are not blank. -/
def lines (f : Feed) : List Line :=
  (f.rows.map Line.ofBytes).filter fun l => !l.isBlank

end Feed

inductive Arrival where
  | line (l : Line)
  /-- More has to be waited for, one block or several. -/
  | wait
  deriving DecidableEq, Repr

namespace Arrival

def line? : Arrival → Option Line
  | line l => some l
  | wait => none

def ofRow (row : List UInt8) : List Arrival :=
  let l := Line.ofBytes row
  if l.isBlank then [] else [line l]

/-- The lines of an input that comes in blocks, where `here` bytes have come and `read` of them
were read. A line without a newline, and the end, show only when more was asked for. -/
def inBlocks (size here read : Nat) : List (List UInt8) → List Arrival
  | [] => [wait]
  | row :: rows =>
    let read := read + row.length
    if read ≤ here ∧ row.getLast? = some Feed.newline then
      ofRow row ++ inBlocks size here read rows
    else wait :: ofRow row ++ inBlocks size ((read + size - 1) / size * size) read rows

end Arrival

namespace Feed

def arrivals (f : Feed) : List Arrival :=
  match f.block with
  | none => f.lines.map .line
  | some size => Arrival.inBlocks size 0 0 f.rows

end Feed

theorem Arrival.filterMap_ofRow (row : List UInt8) :
    (Arrival.ofRow row).filterMap line? = [Line.ofBytes row].filter fun l => !l.isBlank := by
  cases h : (Line.ofBytes row).isBlank <;> simp [ofRow, h, line?]

theorem Arrival.filterMap_inBlocks (size here read : Nat) (rows : List (List UInt8)) :
    (inBlocks size here read rows).filterMap line? =
      (rows.map Line.ofBytes).filter fun l => !l.isBlank := by
  induction rows generalizing here read with
  | nil => rfl
  | cons row rows ih =>
    have h : (row :: rows).map Line.ofBytes = [Line.ofBytes row] ++ rows.map Line.ofBytes := rfl
    rw [h, List.filter_append, ← filterMap_ofRow]
    simp only [inBlocks]
    split
    · rw [List.filterMap_append, ih]
    · rw [List.cons_append, List.filterMap_cons_none rfl, List.filterMap_append, ih]

/-- However the input comes, the same lines come. -/
@[simp] theorem Feed.filterMap_arrivals (f : Feed) :
    f.arrivals.filterMap Arrival.line? = f.lines := by
  unfold arrivals
  split
  · simp [List.filterMap_map, Function.comp_def, Arrival.line?]
  · exact Arrival.filterMap_inBlocks ..

end TestWatch
