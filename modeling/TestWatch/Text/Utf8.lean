/-!
# Reading text from bytes

Bytes are decoded as UTF-8, one after the other. What is not valid is replaced: every longest run
of bytes that begins a character without finishing it, and every byte that begins none, becomes
one replacement character.
-/

namespace TestWatch

namespace Utf8

def replacement : Char := '\uFFFD'

/-- A character that has begun: the bits so far, the number of bytes that it lacks, and the range
that the next of them lies in. -/
structure Begun where
  bits : Nat
  lacks : Nat
  least : Nat
  greatest : Nat
  deriving DecidableEq, Repr

/-- What the first byte of a character of several bytes says about the others. The ranges keep out
long spellings of short characters, surrogates, and what lies beyond the last character. -/
def begin? (b : Nat) : Option Begun :=
  if b < 0xC2 then none
  else if b < 0xE0 then some ⟨b - 0xC0, 1, 0x80, 0xBF⟩
  else if b = 0xE0 then some ⟨0, 2, 0xA0, 0xBF⟩
  else if b = 0xED then some ⟨0xD, 2, 0x80, 0x9F⟩
  else if b < 0xF0 then some ⟨b - 0xE0, 2, 0x80, 0xBF⟩
  else if b = 0xF0 then some ⟨0, 3, 0x90, 0xBF⟩
  else if b < 0xF4 then some ⟨b - 0xF0, 3, 0x80, 0xBF⟩
  else if b = 0xF4 then some ⟨4, 3, 0x80, 0x8F⟩
  else none

def enter (b : Nat) : List Char × Option Begun :=
  if b < 0x80 then ([Char.ofNat b], none)
  else
    match begin? b with
    | some s => ([], some s)
    | none => ([replacement], none)

/-- One byte: the characters that it completes, and the one that is under way after it. -/
def step (s : Option Begun) (b : Nat) : List Char × Option Begun :=
  match s with
  | none => enter b
  | some s =>
    if s.least ≤ b ∧ b ≤ s.greatest then
      let bits := s.bits * 64 + (b - 0x80)
      if s.lacks = 1 then ([Char.ofNat bits], none)
      else ([], some ⟨bits, s.lacks - 1, 0x80, 0xBF⟩)
    else
      let (cs, s) := enter b
      (replacement :: cs, s)

def decodeFrom (s : Option Begun) : List UInt8 → List Char
  | [] => if s.isSome then [replacement] else []
  | b :: bs => (step s b.toNat).1 ++ decodeFrom (step s b.toNat).2 bs

def decode (bs : List UInt8) : List Char := decodeFrom none bs

@[simp] theorem decode_nil : decode [] = [] := rfl

/-- A byte below 0x80 is a character by itself, whatever came before it. -/
theorem step_ascii (s : Option Begun) {b : Nat} (h : b < 0x80)
    (hs : ∀ t ∈ s, 0x80 ≤ t.least) :
    step s b = ((if s.isSome then [replacement] else []) ++ [Char.ofNat b], none) := by
  cases s with
  | none => simp [step, enter, h]
  | some t =>
    have : ¬ (t.least ≤ b ∧ b ≤ t.greatest) := fun hb => by
      have := hs t rfl
      omega
    simp [step, this, enter, h]

/-- Whether all of the bytes are valid, so that nothing is replaced. -/
def isValidFrom (s : Option Begun) : List UInt8 → Bool
  | [] => s.isNone
  | b :: bs =>
    match s with
    | none => (b.toNat < 0x80 || (begin? b.toNat).isSome) && isValidFrom (step none b.toNat).2 bs
    | some t =>
      (decide (t.least ≤ b.toNat) && decide (b.toNat ≤ t.greatest)) &&
        isValidFrom (step (some t) b.toNat).2 bs

def isValid (bs : List UInt8) : Bool := isValidFrom none bs

end Utf8

end TestWatch
