import TestWatch.Json.Basic
import TestWatch.Text.Hex

/-!
# JSON tokens

The first token of a text that does not begin with blanks. Strings are decoded while they are
read; a numeral ends at the first character that cannot extend it.
-/

namespace TestWatch.Json

inductive Token where
  | openObject
  | closeObject
  | openArray
  | closeArray
  | comma
  | colon
  | null
  | bool (value : Bool)
  | number (numeral : Numeral)
  | string (text : Option (List Char))
  deriving DecidableEq, Repr

namespace Token

/-- The four blanks that may stand between tokens. -/
def isSpace (c : Char) : Bool := c == ' ' || c == '\t' || c == '\n' || c == '\r'

def hex? (a b c d : Char) : Option Nat := hexValue? [a, b, c, d]

def isHighSurrogate (n : Nat) : Bool := 0xD800 ≤ n && n < 0xDC00
def isLowSurrogate (n : Nat) : Bool := 0xDC00 ≤ n && n < 0xE000

def ofSurrogates (high low : Nat) : Char :=
  Char.ofNat (0x10000 + (high - 0xD800) * 0x400 + (low - 0xDC00))

def escaped? : Char → Option Char
  | '"' => some '"'
  | '\\' => some '\\'
  | '/' => some '/'
  | 'b' => some '\x08'
  | 'f' => some '\x0c'
  | 'n' => some '\n'
  | 'r' => some '\r'
  | 't' => some '\t'
  | _ => none

/-- Reads a string after its opening quote. `whole` is false once half of a surrogate pair has
been passed; `acc` holds the characters so far, last first. -/
def string? (whole : Bool) (acc : List Char) : List Char → Option (Option (List Char) × List Char)
  | [] => none
  | '"' :: rest => some (if whole then some acc.reverse else none, rest)
  | '\\' :: 'u' :: a :: b :: c :: d :: rest =>
    match hex? a b c d with
    | none => none
    | some high =>
      if isHighSurrogate high then
        match rest with
        | '\\' :: 'u' :: e :: f :: g :: h :: rest' =>
          match hex? e f g h with
          | none => none
          | some low =>
            if isLowSurrogate low then string? whole (ofSurrogates high low :: acc) rest'
            else string? false acc ('\\' :: 'u' :: e :: f :: g :: h :: rest')
        | rest => string? false acc rest
      else if isLowSurrogate high then string? false acc rest
      else string? whole (Char.ofNat high :: acc) rest
  | '\\' :: e :: rest =>
    match escaped? e with
    | none => none
    | some c => string? whole (c :: acc) rest
  | c :: rest => if c.toNat < 0x20 then none else string? whole (c :: acc) rest

def digits? (cs : List Char) : Option (List Char × List Char) :=
  let ds := cs.takeWhile Char.isDigit
  if ds.isEmpty then none else some (ds, cs.dropWhile Char.isDigit)

/-- Integer digits: no zero stands in front of another digit. -/
def whole? (cs : List Char) : Option (List Char × List Char) := do
  let (ds, rest) ← digits? cs
  if ds.head? = some '0' ∧ ds.length ≠ 1 then none else some (ds, rest)

def fraction? : List Char → Option (List Char × List Char)
  | '.' :: cs => digits? cs
  | cs => some ([], cs)

def exponentDigits? (negative : Bool) (cs : List Char) : Option (Int × List Char) :=
  (digits? cs).map fun (ds, rest) =>
    (if negative then Int.neg (digitsValue ds) else (digitsValue ds : Int), rest)

def exponent? : List Char → Option (Int × List Char)
  | 'e' :: '-' :: cs | 'E' :: '-' :: cs => exponentDigits? true cs
  | 'e' :: '+' :: cs | 'E' :: '+' :: cs => exponentDigits? false cs
  | 'e' :: cs | 'E' :: cs => exponentDigits? false cs
  | cs => some (0, cs)

def unsigned? (negative : Bool) (cs : List Char) : Option (Numeral × List Char) := do
  let (whole, cs) ← whole? cs
  let (fraction, cs) ← fraction? cs
  let (exponent, cs) ← exponent? cs
  some (⟨negative, whole, fraction, exponent⟩, cs)

def numeral? : List Char → Option (Numeral × List Char)
  | '-' :: cs => unsigned? true cs
  | cs => unsigned? false cs

/-- The first token of a text, and what follows it. -/
def next? : List Char → Option (Token × List Char)
  | '{' :: cs => some (.openObject, cs)
  | '}' :: cs => some (.closeObject, cs)
  | '[' :: cs => some (.openArray, cs)
  | ']' :: cs => some (.closeArray, cs)
  | ',' :: cs => some (.comma, cs)
  | ':' :: cs => some (.colon, cs)
  | '"' :: cs => (string? true [] cs).map fun (s, rest) => (.string s, rest)
  | 'n' :: 'u' :: 'l' :: 'l' :: cs => some (.null, cs)
  | 't' :: 'r' :: 'u' :: 'e' :: cs => some (.bool true, cs)
  | 'f' :: 'a' :: 'l' :: 's' :: 'e' :: cs => some (.bool false, cs)
  | cs => (numeral? cs).map fun (n, rest) => (.number n, rest)

end Token

end TestWatch.Json
