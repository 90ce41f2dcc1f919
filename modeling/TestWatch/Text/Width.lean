import TestWatch.Text.WidthTable

/-!
# Character widths

How many columns a character takes on a terminal. Control characters take none, and the width of
a text is the sum over its characters.
-/

namespace TestWatch.Text

def inRanges (ranges : List (Nat × Nat)) (n : Nat) : Bool :=
  ranges.any fun (lo, hi) => lo ≤ n && n ≤ hi

/-- The width of a character beyond U+009F. Two Khmer letters that are drawn as several are not
in the tables. -/
def tableWidth (n : Nat) : Nat :=
  if n = 0x17A4 then 2
  else if n = 0x17D8 then 3
  else if inRanges zeroWidthRanges n then 0
  else if inRanges wideRanges n then 2
  else 1

def charWidth (c : Char) : Nat :=
  let n := c.toNat
  if n < 0x20 then 0
  else if n < 0x7F then 1
  else if n < 0xA0 then 0
  else tableWidth n

def plainWidth (cs : List Char) : Nat := cs.foldr (fun c n => charWidth c + n) 0

@[simp] theorem plainWidth_nil : plainWidth [] = 0 := rfl

@[simp] theorem plainWidth_cons (c : Char) (cs : List Char) :
    plainWidth (c :: cs) = charWidth c + plainWidth cs := rfl

@[simp] theorem plainWidth_append (a b : List Char) :
    plainWidth (a ++ b) = plainWidth a + plainWidth b := by
  induction a with
  | nil => simp
  | cons c cs ih => rw [List.cons_append, plainWidth_cons, plainWidth_cons, ih, Nat.add_assoc]

@[simp] theorem charWidth_space : charWidth ' ' = 1 := rfl

end TestWatch.Text
