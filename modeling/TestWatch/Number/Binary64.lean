/-!
# Double-precision numbers, exactly

A value of `Binary64` is the rational number that a double stands for, kept as a mantissa and a
power of two, so that every operation below is integer arithmetic followed by one rounding. The
only rounding rule is `roundDiv`: to the nearest integer, a half to the even neighbour.

Rates and times in seconds are doubles; this module holds what they need: reading a quotient,
products, quotients and sums of nonnegative values, and the bit pattern.
-/

namespace TestWatch

/-- The quotient rounded to the nearest integer, a half going to the even neighbour. -/
def roundDiv (num den : Nat) : Nat :=
  let q := num / den
  let r := num % den
  if 2 * r < den ∨ (2 * r = den ∧ q % 2 = 0) then q else q + 1

/-- The magnitude `mantissa * 2 ^ exponent` of a finite double. -/
structure Magnitude where
  mantissa : Nat
  exponent : Int
  deriving DecidableEq, Repr, Inhabited

namespace Magnitude

/-- The least exponent: magnitudes below `2 ^ -1022` share it and lose digits. -/
def minExponent : Int := -1074

def maxExponent : Int := 971

def zero : Magnitude := ⟨0, minExponent⟩

def num (x : Magnitude) : Nat := x.mantissa * Nat.pow 2 x.exponent.toNat

def den (x : Magnitude) : Nat := Nat.pow 2 (-x.exponent).toNat

def scaled (num den : Nat) (e : Int) : Nat :=
  roundDiv (num * Nat.pow 2 (-e).toNat) (den * Nat.pow 2 e.toNat)

/-- The exponent at which `num / den` has a mantissa of 53 bits, or the least one. -/
def exponentFor (num den : Nat) : Int :=
  let guess : Int := (num.log2 : Int) - den.log2 - 53
  let exact := num * Nat.pow 2 (-guess).toNat / (den * Nat.pow 2 guess.toNat)
  max minExponent (if exact < Nat.pow 2 53 then guess else guess + 1)

/-- The nearest magnitude to `num / den`, or `none` where that is infinite. -/
def ofQuotient? (num den : Nat) : Option Magnitude :=
  if num = 0 then some zero
  else
    let e := exponentFor num den
    let m := scaled num den e
    let x : Magnitude := if m < Nat.pow 2 53 then ⟨m, e⟩ else ⟨Nat.pow 2 52, e + 1⟩
    if x.exponent ≤ maxExponent then some x else none

def roundTo (scale : Nat) (x : Magnitude) : Nat := roundDiv (x.num * scale) x.den

/-- The low 63 bits of the double: biased exponent and fraction. -/
def toBits (x : Magnitude) : Nat :=
  if x.mantissa < Nat.pow 2 52 then x.mantissa
  else (x.exponent + 1075).toNat * Nat.pow 2 52 + (x.mantissa - Nat.pow 2 52)

end Magnitude

inductive Binary64 where
  | nan
  | infinite (negative : Bool)
  | finite (negative : Bool) (magnitude : Magnitude)
  deriving DecidableEq, Repr, Inhabited

namespace Binary64

def ofQuotient (num den : Nat) : Binary64 :=
  match Magnitude.ofQuotient? num den with
  | some x => .finite false x
  | none => .infinite false

def ofNat (n : Nat) : Binary64 := ofQuotient n 1

def zero : Binary64 := .finite false .zero

def neg : Binary64 → Binary64
  | .nan => .nan
  | .infinite s => .infinite (!s)
  | .finite s x => .finite (!s) x

/-- The magnitude of a finite value that is not below zero; both zeros count. -/
def nonneg? : Binary64 → Option Magnitude
  | .finite false x => some x
  | .finite true x => if x.mantissa = 0 then some x else none
  | _ => none

def positive? : Binary64 → Option Magnitude
  | .finite false x => if x.mantissa = 0 then none else some x
  | _ => none

def isPositive : Binary64 → Bool
  | .finite false x => x.mantissa != 0
  | .infinite s => !s
  | _ => false

/-- Finite and not below zero: what a replay rate may be. -/
def isNonneg (x : Binary64) : Bool := x.nonneg?.isSome

def toBits : Binary64 → Nat
  | .nan => 0x7ff8000000000000
  | .infinite s => (if s then Nat.pow 2 63 else 0) + 0x7ff0000000000000
  | .finite s x => (if s then Nat.pow 2 63 else 0) + x.toBits

end Binary64

namespace Magnitude

def mul (x y : Magnitude) : Option Magnitude := ofQuotient? (x.num * y.num) (x.den * y.den)

def div (x y : Magnitude) : Option Magnitude := ofQuotient? (x.num * y.den) (x.den * y.num)

def add (x y : Magnitude) : Option Magnitude :=
  ofQuotient? (x.num * y.den + y.num * x.den) (x.den * y.den)

end Magnitude

end TestWatch
