/-!
# Raw lines on their way to a file

Raw lines are collected and given to their file in pieces. What is collected is given as soon as
the next text would not fit in with it, and a text as long as the whole collection may become is
given by itself. A file takes a piece without an answer, and says only with the next piece, or at
the end, that it could not keep the last.
-/

namespace TestWatch

/-- Where raw lines are written to, and the error that writing meets there. -/
structure RawOutput where
  path : String
  fault : Option String
  deriving DecidableEq, Repr

/-- What a file was given, and what is still collected for it. -/
structure Spool where
  given : String
  pieces : Nat
  collected : String
  deriving DecidableEq, Repr

namespace Spool

def empty : Spool := ⟨"", 0, ""⟩

def room : Nat := 8192

def text (s : Spool) : String := s.given ++ s.collected

/-- The file gets what was collected. -/
def spill (s : Spool) : Spool :=
  if s.collected = "" then s else ⟨s.given ++ s.collected, s.pieces + 1, ""⟩

def put (t : String) (s : Spool) : Spool :=
  if room ≤ t.utf8ByteSize then ⟨s.given ++ s.collected ++ t, s.pieces + 1, ""⟩
  else { s with collected := s.collected ++ t }

def write (t : String) (s : Spool) : Spool :=
  put t (if room < s.collected.utf8ByteSize + t.utf8ByteSize then s.spill else s)

def writeLine (line : String) (s : Spool) : Spool := (s.write line).write "\n"

def ofLines (lines : List String) : Spool := lines.foldl (fun s l => s.writeLine l) empty

/-- A file that keeps nothing has said so. -/
def isRefused (s : Spool) : Bool := 2 ≤ s.pieces

@[simp] theorem text_spill (s : Spool) : s.spill.text = s.text := by
  unfold spill
  split <;> simp [text]

@[simp] theorem text_put (t : String) (s : Spool) : (s.put t).text = s.text ++ t := by
  unfold put
  split <;> simp [text, String.append_assoc]

@[simp] theorem text_write (t : String) (s : Spool) : (s.write t).text = s.text ++ t := by
  unfold write
  rw [text_put]
  split <;> simp

theorem text_writeLine (line : String) (s : Spool) :
    (s.writeLine line).text = s.text ++ line ++ "\n" := by
  simp [writeLine]

end Spool

end TestWatch
