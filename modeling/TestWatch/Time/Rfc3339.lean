import TestWatch.Text.Blank
import TestWatch.Time.Timestamp

/-!
# Timestamps as text

Reading is a relaxed RFC 3339: blanks may stand before each part and before the offset, numbers
need not be padded, and years of more than four digits carry a sign. Writing always gives nine
fraction digits and a numeric offset.
-/

namespace TestWatch.Timestamp

namespace Reader

def number? (most : Nat) (cs : List Char) : Option (Nat × List Char) :=
  let ds := (cs.takeWhile Char.isDigit).take most
  if ds.isEmpty then none else some (digitsValue ds, cs.drop ds.length)

/-- A number of up to two digits, between `lo` and `hi`, after any blanks. -/
def field? (lo hi : Nat) (cs : List Char) : Option (Nat × List Char) := do
  let (n, cs) ← number? 2 (Text.trimStart cs)
  if lo ≤ n ∧ n ≤ hi then some (n, cs) else none

/-- A year after any blanks; without a sign it has at most four digits. -/
def year? (cs : List Char) : Option (Int × List Char) :=
  match Text.trimStart cs with
  | '-' :: cs => (number? cs.length cs).map fun (n, r) => (Int.neg n, r)
  | '+' :: cs => (number? cs.length cs).map fun (n, r) => ((n : Int), r)
  | cs => (number? 4 cs).map fun (n, r) => ((n : Int), r)

def mark? (c : Char) : List Char → Option (List Char)
  | d :: cs => if d = c then some cs else none
  | [] => none

def date? (cs : List Char) : Option (Date × List Char) := do
  let (y, cs) ← year? cs
  let cs ← mark? '-' (Text.trimStart cs)
  let (m, cs) ← field? 1 12 cs
  let cs ← mark? '-' (Text.trimStart cs)
  let (d, cs) ← field? 1 31 cs
  let date : Date := ⟨y, m, d⟩
  if date.Valid then some (date, cs) else none

/-- The fraction of a second in nanoseconds; digits past the ninth do not count. -/
def fraction? (cs : List Char) : Option (Nat × List Char) :=
  match cs with
  | '.' :: cs =>
    let ds := cs.takeWhile Char.isDigit
    if ds.isEmpty then none
    else
      let nine := ds.take 9
      some (digitsValue nine * Nat.pow 10 (9 - nine.length), cs.drop ds.length)
  | cs => some (0, cs)

/-- The second of the day and the fraction; second 60 is the fraction going on past one. -/
def time? (cs : List Char) : Option ((Nat × Nat) × List Char) := do
  let (h, cs) ← field? 0 23 cs
  let cs ← mark? ':' (Text.trimStart cs)
  let (m, cs) ← field? 0 59 cs
  let cs ← mark? ':' (Text.trimStart cs)
  let (s, cs) ← field? 0 60 cs
  let (f, cs) ← fraction? cs
  let leap := s = 60
  some ((h * 3600 + m * 60 + (if leap then 59 else s), f + (if leap then nanosPerSecond else 0)), cs)

def twoDigits? : List Char → Option (Nat × List Char)
  | a :: b :: cs => if a.isDigit && b.isDigit then some (digitsValue [a, b], cs) else none
  | _ => none

/-- Hours and minutes, with any colons and blanks between them. -/
def hoursMinutes? (cs : List Char) : Option (Nat × List Char) := do
  let (h, cs) ← twoDigits? cs
  let (m, cs) ← twoDigits? (cs.dropWhile fun c => c == ':' || isBlank c)
  if m < 60 then some (h * 3600 + m * 60, cs) else none

def offset? (cs : List Char) : Option (Int × List Char) :=
  if (cs.take 3).map Char.toUpper = ['U', 'T', 'C'] then some (0, cs.drop 3)
  else
    match cs with
    | 'Z' :: cs | 'z' :: cs => some (0, cs)
    | '+' :: cs => (hoursMinutes? cs).map fun (n, r) => ((n : Int), r)
    | '-' :: cs | '\u2212' :: cs => (hoursMinutes? cs).map fun (n, r) => (Int.neg n, r)
    | _ => none

def separator? : List Char → Option (List Char)
  | 'T' :: cs | 't' :: cs | ' ' :: cs => some cs
  | _ => none

end Reader

/-- The timestamp of a local date and time of day at an offset under 24 hours. -/
def ofLocal? (date : Date) (secondOfDay nano : Nat) (offset : Int) : Option Timestamp :=
  let second := date.toDay * daySeconds + secondOfDay - offset
  if offset.natAbs < 86400 ∧ InRange second then some ⟨second, nano, offset⟩ else none

/-- Reads a timestamp that takes up the whole text, blanks at its end aside. -/
def ofText? (cs : List Char) : Option Timestamp := do
  let (date, cs) ← Reader.date? cs
  let cs ← Reader.separator? cs
  let ((second, nano), cs) ← Reader.time? cs
  let (offset, cs) ← Reader.offset? (Text.trimStart cs)
  if (Text.trimStart cs).isEmpty then ofLocal? date second nano offset else none

def yearText (y : Int) : List Char :=
  if 0 ≤ y ∧ y ≤ 9999 then paddedDecimal 4 y.toNat
  else (if y < 0 then '-' else '+') :: paddedDecimal 4 y.natAbs

def offsetText (offset : Int) : List Char :=
  let minutes := offset.natAbs / 60
  (if offset < 0 then '-' else '+') ::
    (paddedDecimal 2 (minutes / 60) ++ ':' :: paddedDecimal 2 (minutes % 60))

def toText (t : Timestamp) : List Char :=
  let here := t.second + t.offset
  let date := Date.ofDay (here / daySeconds)
  let s := (here % daySeconds).toNat
  let leap := if t.isLeapSecond then 1 else 0
  yearText date.year ++ '-' :: paddedDecimal 2 date.month ++ '-' :: paddedDecimal 2 date.day ++
    'T' :: paddedDecimal 2 (s / 3600) ++ ':' :: paddedDecimal 2 (s / 60 % 60) ++
    ':' :: paddedDecimal 2 (s % 60 + leap) ++
    '.' :: paddedDecimal 9 (t.nano % nanosPerSecond) ++ offsetText t.offset

end TestWatch.Timestamp
