import TestWatch.Number.Decimal
import TestWatch.Text.Hex
import TestWatch.Time.Calendar
import TestWatch.Toml.Basic
import TestWatch.Toml.Quoted

/-!
# Bare values

Values without quotes or brackets: booleans, integers, floats, dates and times. Underscores may
stand between digits.
-/

namespace TestWatch.Toml.Bare

def isPart (c : Char) : Bool := isPlain c && !([' ', '\t', ',', ']', '}', '#'].contains c)

/-- Digits with underscores between them, without these. -/
def grouped? (isDigit : Char → Bool) : List Char → Option (List Char)
  | [] => none
  | [c] => if isDigit c then some [c] else none
  | c :: '_' :: cs => if isDigit c then (grouped? isDigit cs).map (c :: ·) else none
  | c :: cs => if isDigit c then (grouped? isDigit cs).map (c :: ·) else none

def decimal? (cs : List Char) : Option (List Char) := grouped? Char.isDigit cs

/-- A whole decimal number has no zero in front. -/
def whole? (cs : List Char) : Option (List Char) :=
  (decimal? cs).filter fun ds => ds.length == 1 || ds.head? != some '0'

def signed : List Char → Bool × List Char
  | '-' :: cs => (true, cs)
  | '+' :: cs => (false, cs)
  | cs => (false, cs)

def based? (base : Nat) (cs : List Char) : Option Int :=
  let isDigit (c : Char) : Bool := (hexDigit? c).any (· < base)
  (grouped? isDigit cs).map fun ds =>
    Int.ofNat (ds.foldl (fun n c => n * base + (hexDigit? c).getD 0) 0)

def integer? : List Char → Option Int
  | '0' :: 'x' :: cs => based? 16 cs
  | '0' :: 'o' :: cs => based? 8 cs
  | '0' :: 'b' :: cs => based? 2 cs
  | cs =>
    let (negative, cs) := signed cs
    (whole? cs).map fun ds => if negative then Int.neg (digitsValue ds) else digitsValue ds

/-- An integer has at most 128 bits. -/
def inRange (n : Int) : Bool := decide (Int.neg (Nat.pow 2 127) ≤ n) && decide (n < (Nat.pow 2 128 : Nat))

def isExponentMark (c : Char) : Bool := c == 'e' || c == 'E'

/-- The exponent of a float, with its mark, or nothing. -/
def exponent? : List Char → Option Int
  | [] => some 0
  | _ :: cs =>
    let (negative, cs) := signed cs
    (decimal? cs).map fun ds => if negative then Int.neg (digitsValue ds) else digitsValue ds

def fraction? : List Char → Option (List Char)
  | [] => some []
  | _ :: cs => decimal? cs

/-- A float that is neither infinite nor no number. It has a fraction or an exponent, and must not
be too large for a double. -/
def finite? (cs : List Char) : Option Unit := do
  let (negative, cs) := signed cs
  let mantissa := cs.takeWhile fun c => !isExponentMark c
  let whole ← whole? (mantissa.takeWhile (· != '.'))
  let fraction ← fraction? (mantissa.dropWhile (· != '.'))
  let exponent ← exponent? (cs.dropWhile fun c => !isExponentMark c)
  match Binary64.ofScientific ⟨negative, whole, fraction, exponent⟩ with
  | .infinite _ => none
  | _ => some ()

def isFloat (cs : List Char) : Bool :=
  let (_, body) := signed cs
  body == "inf".toList || body == "nan".toList || (finite? cs).isSome

/-- A number of so many digits within bounds. -/
def field? (digits least greatest : Nat) (cs : List Char) : Option (Nat × List Char) :=
  let ds := cs.take digits
  if ds.length = digits ∧ ds.all Char.isDigit ∧ least ≤ digitsValue ds ∧
      digitsValue ds ≤ greatest then
    some (digitsValue ds, cs.drop digits)
  else none

def mark? (c : Char) : List Char → Option (List Char)
  | d :: cs => if c == d then some cs else none
  | [] => none

def afterDate? (cs : List Char) : Option (List Char) := do
  let (year, cs) ← field? 4 0 9999 cs
  let (month, cs) ← field? 2 1 12 (← mark? '-' cs)
  let (_, cs) ← field? 2 1 (Date.daysInMonth year month) (← mark? '-' cs)
  some cs

def afterFraction? : List Char → Option (List Char)
  | '.' :: cs => if (cs.takeWhile Char.isDigit).isEmpty then none else some (cs.dropWhile Char.isDigit)
  | cs => some cs

/-- The text after a time; its seconds may be left out. -/
def afterTime? (cs : List Char) : Option (List Char) := do
  let (_, cs) ← field? 2 0 23 cs
  let (_, cs) ← field? 2 0 59 (← mark? ':' cs)
  match cs with
  | ':' :: cs => do
    let (_, cs) ← field? 2 0 60 cs
    afterFraction? cs
  | cs => some cs

def isOffset : List Char → Bool
  | [] => true
  | ['Z'] | ['z'] => true
  | c :: cs =>
    (c == '+' || c == '-') &&
      (do
        let (_, cs) ← field? 2 0 23 cs
        let (_, cs) ← field? 2 0 59 (← mark? ':' cs)
        some cs) == some []

def isDate (cs : List Char) : Bool :=
  match afterDate? cs with
  | some [] => true
  | some (c :: rest) => (c == 'T' || c == 't' || c == ' ') && (afterTime? rest).any isOffset
  | none => afterTime? cs == some []

def ofText? (cs : List Char) : Option Value :=
  if cs == "true".toList || cs == "false".toList then some .bool
  else
    match integer? cs with
    | some n => if inRange n then some (.integer n) else none
    | none => if isFloat cs then some .float else if isDate cs then some .date else none

/-- The text of a bare value in front, and the rest. A blank may stand between a date and a time. -/
def span (cs : List Char) : List Char × List Char :=
  let first := cs.takeWhile isPart
  match cs.dropWhile isPart with
  | ' ' :: c :: rest =>
    if afterDate? first == some [] && c.isDigit then
      (first ++ ' ' :: (c :: rest).takeWhile isPart, (c :: rest).dropWhile isPart)
    else (first, ' ' :: c :: rest)
  | rest => (first, rest)

def read? (cs : List Char) : Option (Value × List Char) :=
  (ofText? (span cs).1).map fun v => (v, (span cs).2)

end TestWatch.Toml.Bare
