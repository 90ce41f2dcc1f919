import TestWatch.Text.Blank
import TestWatch.Time.Duration

/-!
# Durations as people write them

A span of time is written as amounts with units, such as `1h 30m` or `1.5s`. Amounts are counted in
64 bits, and a fraction has to come out whole.
-/

namespace TestWatch

structure TimeUnit where
  names : List String
  nanos : Nat
  grain : Nat
  /-- What fractions are counted in; zero where there are none. -/
  fineGrain : Nat
  deriving DecidableEq, Repr

namespace TimeUnit

def second : Nat := 1000000000

/-- All units. A month and a year are averages. -/
def all : List TimeUnit := [
  ⟨["nanos", "nsec", "ns"], 1, 1, 0⟩,
  ⟨["usec", "us", "µs"], 1000, 1, 1⟩,
  ⟨["millis", "msec", "ms"], 1000000, 1, 1⟩,
  ⟨["seconds", "second", "secs", "sec", "s"], second, second, 1⟩,
  ⟨["minutes", "minute", "min", "mins", "m"], 60 * second, second, 1⟩,
  ⟨["hours", "hour", "hr", "hrs", "h"], 3600 * second, second, second⟩,
  ⟨["days", "day", "d"], 86400 * second, second, second⟩,
  ⟨["weeks", "week", "wk", "wks", "w"], 604800 * second, second, second⟩,
  ⟨["months", "month", "M"], 2630016 * second, second, second⟩,
  ⟨["years", "year", "yr", "yrs", "y"], 31557600 * second, second, second⟩]

def ofName? (name : List Char) : Option TimeUnit :=
  all.find? fun u => u.names.any fun n => n.toList == name

end TimeUnit

structure Amount where
  whole : Nat
  fraction : Option (List Char)
  unit : TimeUnit
  deriving DecidableEq, Repr

namespace Amount

def limit : Nat := Nat.pow 2 64

def count? (num den grain nanos : Nat) : Option Nat :=
  let n := num * (nanos / grain)
  if n < limit ∧ n % den = 0 then some (n / den * grain) else none

def add? (total grain n : Nat) : Option Nat :=
  if grain = 1 ∧ limit ≤ total % TimeUnit.second + n then none
  else if total + n < limit * TimeUnit.second then some (total + n)
  else none

/-- The fraction of an amount; all of its digits are counted, zeros in front excepted. -/
def addFraction? (u : TimeUnit) (total : Nat) : Option (List Char) → Option Nat
  | none => some total
  | some ds => do
    let num := digitsValue ds
    let den := Nat.pow 10 ds.length
    if ds = [] ∨ u.fineGrain = 0 ∨ limit ≤ num ∨ limit ≤ den then none
    else add? total u.fineGrain (← count? num den u.fineGrain u.nanos)

def addTo? (total : Nat) (a : Amount) : Option Nat := do
  if limit ≤ a.whole then none
  else
    let total ← add? total a.unit.grain (← count? a.whole 1 a.unit.grain a.unit.nanos)
    addFraction? a.unit total a.fraction

def isLetter (c : Char) : Bool := c.isAlpha || c == 'µ'

def isDigitOrBlank (c : Char) : Bool := c.isDigit || isBlank c

def digits (cs : List Char) : List Char × List Char :=
  ((cs.takeWhile isDigitOrBlank).filter Char.isDigit, cs.dropWhile isDigitOrBlank)

def splitFraction (cs : List Char) : Option (List Char) × List Char :=
  match cs with
  | '.' :: cs => (some (digits cs).1, (digits cs).2)
  | cs => (none, cs)

def read? (cs : List Char) : Option (Amount × List Char) := do
  let (whole, cs) := digits cs
  let (fraction, cs) := splitFraction cs
  let unit ← TimeUnit.ofName? (cs.takeWhile isLetter)
  some (⟨digitsValue whole, fraction, unit⟩, cs.dropWhile isLetter)

/-- All amounts of a text; each uses at least one character. -/
def readAll? : Nat → List Char → Option (List Amount)
  | 0, _ => none
  | fuel + 1, cs =>
    match Text.trimStart cs with
    | [] => some []
    | c :: cs =>
      if c.isDigit then do
        let (a, rest) ← read? (c :: cs)
        let more ← readAll? fuel rest
        some (a :: more)
      else none

end Amount

namespace Duration

/-- The duration that a text spells. A lone zero needs no unit; no amount at all is an error. -/
def ofSpan? (cs : List Char) : Option Duration := do
  if cs = ['0'] then some zero
  else
    let amounts ← Amount.readAll? (cs.length + 1) cs
    if amounts = [] then none
    else
      let nanos ← amounts.foldlM Amount.addTo? 0
      some ⟨nanos⟩

def spelling : List (Nat × String × String) :=
  let s := TimeUnit.second
  [(31557600 * s, "year", "years"), (2630016 * s, "month", "months"), (86400 * s, "day", "days"),
    (3600 * s, "h", "h"), (60 * s, "m", "m"), (s, "s", "s"), (1000000, "ms", "ms"),
    (1000, "us", "us"), (1, "ns", "ns")]

/-- The parts of a duration: each unit takes as much as it can. -/
def parts (nanos : Nat) : List (Nat × String × String) → List (List Char)
  | [] => []
  | (size, one, many) :: units =>
    let n := nanos / size
    let rest := parts (nanos % size) units
    if n = 0 then rest else (decimal n ++ (if n = 1 then one else many).toList) :: rest

def spelled (d : Duration) : List Char :=
  if d.nanos = 0 then "0s".toList else List.intercalate [' '] (parts d.nanos spelling)

end Duration

end TestWatch
