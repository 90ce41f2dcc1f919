import TestWatch.Number.Binary64

/-!
# Decimal numerals

Numbers written in decimal: digit strings, the doubles they stand for, and the two ways a double
is written back (the shortest text that reads back, and a text with one decimal place).

Two readers turn a numeral into a double. `Binary64.ofScientific` rounds the exact value once.
`Binary64.ofNumeral?` is the reader of streamed numbers: it keeps the leading digits that fit in
64 bits and scales by rounded powers of ten, so its last bit may differ from the nearest double.
-/

namespace TestWatch

def digitValue (c : Char) : Nat := c.toNat - '0'.toNat

def digitsValue (ds : List Char) : Nat := ds.foldl (fun n c => n * 10 + digitValue c) 0

def decimal (n : Nat) : List Char := Nat.toDigits 10 n

theorem isDigit_of_mem_decimal {n : Nat} {c : Char} (h : c ∈ decimal n) : c.isDigit = true :=
  Nat.isDigit_of_mem_toDigits (by decide) (by decide) h

def paddedDecimal (width n : Nat) : List Char :=
  let ds := decimal n
  List.replicate (width - ds.length) '0' ++ ds

/-- A numeral as it is written: sign, integer digits, fraction digits, and power of ten. -/
structure Numeral where
  negative : Bool
  whole : List Char
  fraction : List Char
  exponent : Int
  deriving DecidableEq, Repr

namespace Numeral

def maxSignificand : Nat := Nat.pow 2 64 - 1

/-- The integer digits up to the first that no longer fits, and how many are left out. -/
def wholePart (n : Nat) : List Char → Nat × Nat
  | [] => (n, 0)
  | d :: ds =>
    let m := n * 10 + digitValue d
    if m ≤ maxSignificand then wholePart m ds else (n, ds.length + 1)

def fractionPart (n : Nat) : List Char → Nat × Nat
  | [] => (n, 0)
  | d :: ds =>
    let m := n * 10 + digitValue d
    if m ≤ maxSignificand then
      let (r, used) := fractionPart m ds
      (r, used + 1)
    else (n, 0)

def significand (x : Numeral) : Nat × Int :=
  let (n, dropped) := wholePart 0 x.whole
  let (m, used) := fractionPart n x.fraction
  (m, (dropped : Int) - used + x.exponent)

end Numeral

namespace Magnitude

/-- The magnitude nearest to `10 ^ k`; it is finite for `k` up to 308. -/
def pow10 (k : Nat) : Magnitude := (ofQuotient? (Nat.pow 10 k) 1).getD zero

/-- One step divides by at most `10 ^ 308`, and two always reach zero from 64 bits. -/
def ofSignificand? (n : Nat) (exponent : Int) : Option Magnitude := do
  let x ← ofQuotient? n 1
  if n = 0 then some x
  else if 0 ≤ exponent then
    if exponent ≤ 308 then x.mul (pow10 exponent.toNat) else none
  else
    let k := (-exponent).toNat
    if k ≤ 308 then x.div (pow10 k)
    else if k ≤ 616 then (x.div (pow10 308)).bind (·.div (pow10 (k - 308)))
    else some zero

end Magnitude

namespace Binary64

def ofNumeral? (x : Numeral) : Option Binary64 :=
  let (n, e) := x.significand
  (Magnitude.ofSignificand? n e).map (.finite x.negative)

def ofScientific (x : Numeral) : Binary64 :=
  let ds := (x.whole ++ x.fraction).dropWhile (· == '0')
  let e := x.exponent - x.fraction.length
  let value :=
    if ds.isEmpty then zero
    else if e + ds.length > 400 then .infinite false
    else if e + ds.length < -400 then zero
    else ofQuotient (digitsValue ds * Nat.pow 10 e.toNat) (Nat.pow 10 (-e).toNat)
  if x.negative then value.neg else value

end Binary64

namespace Numeral

def isWord (word : String) (cs : List Char) : Bool := cs.map Char.toLower == word.toList

def exponent? : List Char → Option Int
  | [] => some 0
  | c :: cs =>
    let (negative, ds) := match cs with
      | '-' :: ds => (true, ds)
      | '+' :: ds => (false, ds)
      | ds => (false, ds)
    if c.toLower = 'e' ∧ ds ≠ [] ∧ ds.all Char.isDigit then
      some (if negative then Int.neg (digitsValue ds) else digitsValue ds)
    else none

/-- A numeral without a sign: digits with a point somewhere, or with none, and an exponent. -/
def ofText? (negative : Bool) (cs : List Char) : Option Numeral :=
  let whole := cs.takeWhile Char.isDigit
  let (fraction, rest) := match cs.dropWhile Char.isDigit with
    | '.' :: cs => (cs.takeWhile Char.isDigit, cs.dropWhile Char.isDigit)
    | cs => ([], cs)
  if whole = [] ∧ fraction = [] then none
  else (exponent? rest).map fun e => ⟨negative, whole, fraction, e⟩

end Numeral

namespace Binary64

def ofUnsigned? (negative : Bool) (cs : List Char) : Option Binary64 :=
  if Numeral.isWord "inf" cs || Numeral.isWord "infinity" cs then some (.infinite negative)
  else if Numeral.isWord "nan" cs then some .nan
  else (Numeral.ofText? negative cs).map ofScientific

def ofText? : List Char → Option Binary64
  | '-' :: cs => ofUnsigned? true cs
  | '+' :: cs => ofUnsigned? false cs
  | cs => ofUnsigned? false cs

end Binary64

namespace Magnitude

/-- Four times the numerators of the ends of the interval that rounds to `x`, over `4 * x.den`. -/
def interval (x : Magnitude) : Nat × Nat :=
  let step := Nat.pow 2 x.exponent.toNat
  let below := if x.mantissa = Nat.pow 2 52 ∧ minExponent < x.exponent then step else 2 * step
  (4 * x.num - below, 4 * x.num + 2 * step)

/-- The power of ten next above the value: `10 ^ (k - 1) ≤ x < 10 ^ k`. -/
def decimalExponent (x : Magnitude) : Int :=
  if x.den ≤ x.num then (decimal (x.num / x.den)).length
  else
    let zeros : Nat := ((List.range 400).find? (fun j => x.den ≤ x.num * Nat.pow 10 (j + 1))).getD 0
    Int.neg zeros

/-- The point of the grid of `p` digits that lies in the interval of `x` and is nearest to it; of
two equally near ones it is the upper. -/
def onGrid? (x : Magnitude) (k : Int) (p : Nat) : Option Nat :=
  let e := k - p
  let num := x.num * Nat.pow 10 (-e).toNat
  let den := x.den * Nat.pow 10 e.toNat
  let q := num / den
  let (lo, hi) := x.interval
  let inside (n : Nat) : Bool :=
    let v := n * Nat.pow 10 e.toNat * x.den * 4
    let l := lo * Nat.pow 10 (-e).toNat
    let h := hi * Nat.pow 10 (-e).toNat
    if x.mantissa % 2 = 0 then l ≤ v && v ≤ h else l < v && v < h
  match inside q, inside (q + 1) with
  | true, true => some (if 2 * (num % den) < den then q else q + 1)
  | true, false => some q
  | false, true => some (q + 1)
  | false, false => none

/-- The fewest digits that read back as `x`, and the power of ten of the last. -/
def shortest (x : Magnitude) : Nat × Int :=
  let k := x.decimalExponent
  let found := (List.range 17).findSome? fun p =>
    (x.onGrid? k (p + 1)).map (·, k - ((p + 1 : Nat) : Int))
  match found with
  | some (10, e) => (1, e + 1)
  | some r => r
  | none => (0, 0)

def positional (n : Nat) (e : Int) : List Char :=
  if 0 ≤ e then decimal n ++ List.replicate e.toNat '0'
  else
    let places := (-e).toNat
    let ds := paddedDecimal (places + 1) n
    ds.take (ds.length - places) ++ '.' :: ds.drop (ds.length - places)

def text (x : Magnitude) : List Char :=
  if x.mantissa = 0 then ['0']
  else
    let (n, e) := x.shortest
    positional n e

/-- The text with one decimal place; an exact half goes to the even digit. -/
def tenths (x : Magnitude) : List Char :=
  let n := x.roundTo 10
  decimal (n / 10) ++ '.' :: decimal (n % 10)

end Magnitude

namespace Binary64

def text : Binary64 → List Char
  | .nan => "NaN".toList
  | .infinite s => (if s then ['-'] else []) ++ "inf".toList
  | .finite s x => (if s then ['-'] else []) ++ x.text

end Binary64

end TestWatch
