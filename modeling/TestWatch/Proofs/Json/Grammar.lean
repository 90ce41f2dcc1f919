import TestWatch.Json.Token

/-!
# The grammar of JSON

All ways to write a value: which blanks may stand where, how a character of a string is escaped,
and what a numeral looks like. A string in which half of a surrogate pair is escaped is written
like any other, and it stands for no text.
-/

namespace TestWatch.Json

def Blanks (cs : List Char) : Prop := ∀ c ∈ cs, Token.isSpace c = true

/-- The escapes of two characters: what stands after the backslash, and what it stands for. -/
def shortEscapes : List (Char × Char) :=
  [('"', '"'), ('\\', '\\'), ('/', '/'), ('b', '\x08'), ('f', '\x0c'), ('n', '\n'), ('r', '\r'),
    ('t', '\t')]

def hexEscape (a b c d : Char) (text : List Char) : List Char :=
  '\\' :: 'u' :: a :: b :: c :: d :: text

/-- The text goes on with the second half of a surrogate pair. -/
def BeginsLow (text : List Char) : Prop :=
  ∃ a b c d low rest, text = hexEscape a b c d rest ∧ hexValue? [a, b, c, d] = some low ∧
    Token.isLowSurrogate low = true

/-- Characters and a text for them between quotes. The flag says that no surrogate stands alone;
one that does stands for no character. -/
inductive Quotes : Bool → List Char → List Char → Prop
  | nil : Quotes true [] []
  | literal {whole : Bool} {cs text : List Char} {c : Char} :
      0x20 ≤ c.toNat → c ≠ '"' → c ≠ '\\' → Quotes whole cs text →
      Quotes whole (c :: cs) (c :: text)
  | short {whole : Bool} {cs text : List Char} {e c : Char} :
      (e, c) ∈ shortEscapes → Quotes whole cs text → Quotes whole (c :: cs) ('\\' :: e :: text)
  | number {whole : Bool} {cs text : List Char} {x a b c d : Char} :
      hexValue? [a, b, c, d] = some x.toNat → Quotes whole cs text →
      Quotes whole (x :: cs) (hexEscape a b c d text)
  | pair {whole : Bool} {cs text : List Char} {x a b c d e f g h : Char} {high low : Nat} :
      hexValue? [a, b, c, d] = some high → Token.isHighSurrogate high = true →
      hexValue? [e, f, g, h] = some low → Token.isLowSurrogate low = true →
      x.toNat = 0x10000 + (high - 0xD800) * 0x400 + (low - 0xDC00) → Quotes whole cs text →
      Quotes whole (x :: cs) (hexEscape a b c d (hexEscape e f g h text))
  | highHalf {whole : Bool} {cs text : List Char} {a b c d : Char} {high : Nat} :
      hexValue? [a, b, c, d] = some high → Token.isHighSurrogate high = true → ¬ BeginsLow text →
      Quotes whole cs text → Quotes false cs (hexEscape a b c d text)
  | lowHalf {whole : Bool} {cs text : List Char} {a b c d : Char} {low : Nat} :
      hexValue? [a, b, c, d] = some low → Token.isLowSurrogate low = true →
      Quotes whole cs text → Quotes false cs (hexEscape a b c d text)

inductive StringText : Option (List Char) → List Char → Prop
  | text {cs text : List Char} : Quotes true cs text → StringText (some cs) ('"' :: (text ++ ['"']))
  | noText {cs text : List Char} : Quotes false cs text → StringText none ('"' :: (text ++ ['"']))

theorem quotes_self {cs : List Char} (h : ∀ c ∈ cs, 0x20 ≤ c.toNat ∧ c ≠ '"' ∧ c ≠ '\\') :
    Quotes true cs cs := by
  induction cs with
  | nil => exact .nil
  | cons c cs ih =>
    rw [List.forall_mem_cons] at h
    exact .literal h.1.1 h.1.2.1 h.1.2.2 (ih h.2)

/-- Every text can be written: where no other escape is, its number will do. -/
theorem exists_stringText (cs : List Char) : ∃ text, StringText (some cs) text := by
  have control : ∀ n < 0x20,
      hexValue? ['0', '0', Nat.digitChar (n / 16), Nat.digitChar (n % 16)] = some n := by decide
  have quotes : ∃ text, Quotes true cs text := by
    induction cs with
    | nil => exact ⟨_, .nil⟩
    | cons c cs ih =>
      obtain ⟨text, written⟩ := ih
      by_cases visible : 0x20 ≤ c.toNat
      · by_cases escape : (c, c) ∈ shortEscapes
        · exact ⟨_, .short escape written⟩
        · have plain : c ≠ '"' ∧ c ≠ '\\' := by
            constructor <;> (rintro rfl; exact escape (by decide))
          exact ⟨_, .literal visible plain.1 plain.2 written⟩
      · exact ⟨_, .number (control c.toNat (Nat.lt_of_not_le visible)) written⟩
  obtain ⟨text, written⟩ := quotes
  exact ⟨_, .text written⟩

def Digits (ds : List Char) : Prop := ds ≠ [] ∧ ∀ c ∈ ds, c.isDigit = true

/-- No zero stands in front of other digits. -/
def WholeText (ds : List Char) : Prop := Digits ds ∧ (ds.head? = some '0' → ds = ['0'])

inductive FractionText : List Char → List Char → Prop
  | none : FractionText [] []
  | digits {ds : List Char} : Digits ds → FractionText ds ('.' :: ds)

inductive ExponentText : Int → List Char → Prop
  | none : ExponentText 0 []
  | unsigned {letter : Char} {ds : List Char} :
      letter ∈ ['e', 'E'] → Digits ds → ExponentText (digitsValue ds) (letter :: ds)
  | plus {letter : Char} {ds : List Char} :
      letter ∈ ['e', 'E'] → Digits ds → ExponentText (digitsValue ds) (letter :: '+' :: ds)
  | minus {letter : Char} {ds : List Char} :
      letter ∈ ['e', 'E'] → Digits ds →
      ExponentText (Int.neg (digitsValue ds)) (letter :: '-' :: ds)

inductive NumeralText : Numeral → List Char → Prop
  | positive {whole fraction f x : List Char} {exponent : Int} :
      WholeText whole → FractionText fraction f → ExponentText exponent x →
      NumeralText ⟨false, whole, fraction, exponent⟩ (whole ++ (f ++ x))
  | negative {whole fraction f x : List Char} {exponent : Int} :
      WholeText whole → FractionText fraction f → ExponentText exponent x →
      NumeralText ⟨true, whole, fraction, exponent⟩ ('-' :: (whole ++ (f ++ x)))

/-- What is written: a value, the same with blanks around it, or several between the brackets of
an array or an object. -/
inductive Part where
  | value (value : Json)
  | item (value : Json)
  | items (items : List Json)
  | member (member : Member)
  | members (members : List Member)

inductive Spells : Part → List Char → Prop
  | null : Spells (.value .null) ['n', 'u', 'l', 'l']
  | true : Spells (.value (.bool true)) ['t', 'r', 'u', 'e']
  | false : Spells (.value (.bool false)) ['f', 'a', 'l', 's', 'e']
  | number {n : Numeral} {text : List Char} : NumeralText n text → Spells (.value (.number n)) text
  | string {s : Option (List Char)} {text : List Char} :
      StringText s text → Spells (.value (.string s)) text
  | noItems {b : List Char} : Blanks b → Spells (.value (.array [])) ('[' :: (b ++ [']']))
  | array {vs : List Json} {text : List Char} :
      Spells (.items vs) text → Spells (.value (.array vs)) ('[' :: (text ++ [']']))
  | noMembers {b : List Char} : Blanks b → Spells (.value (.object [])) ('{' :: (b ++ ['}']))
  | object {ms : List Member} {text : List Char} :
      Spells (.members ms) text → Spells (.value (.object ms)) ('{' :: (text ++ ['}']))
  | item {v : Json} {b₁ text b₂ : List Char} :
      Blanks b₁ → Spells (.value v) text → Blanks b₂ → Spells (.item v) (b₁ ++ (text ++ b₂))
  | lastItem {v : Json} {text : List Char} : Spells (.item v) text → Spells (.items [v]) text
  | moreItems {v : Json} {vs : List Json} {text more : List Char} :
      Spells (.item v) text → Spells (.items vs) more →
      Spells (.items (v :: vs)) (text ++ ',' :: more)
  | member {k : Option (List Char)} {v : Json} {b₁ key b₂ text : List Char} :
      Blanks b₁ → StringText k key → Blanks b₂ → Spells (.item v) text →
      Spells (.member (k, v)) (b₁ ++ (key ++ (b₂ ++ ':' :: text)))
  | lastMember {m : Member} {text : List Char} :
      Spells (.member m) text → Spells (.members [m]) text
  | moreMembers {m : Member} {ms : List Member} {text more : List Char} :
      Spells (.member m) text → Spells (.members ms) more →
      Spells (.members (m :: ms)) (text ++ ',' :: more)

theorem exists_spells_object {ms : List Member} (some_member : ms ≠ [])
    (texts : ∀ m ∈ ms, ∃ k v, m = (some k, .string (some v))) :
    ∃ text, Spells (.value (.object ms)) text := by
  have no_blanks : Blanks [] := nofun
  have one {m : Member} (text : ∃ k v, m = (some k, .string (some v))) :
      ∃ text, Spells (.member m) text := by
    obtain ⟨k, v, rfl⟩ := text
    obtain ⟨key, hkey⟩ := exists_stringText k
    obtain ⟨value, hvalue⟩ := exists_stringText v
    exact ⟨_, .member no_blanks hkey no_blanks (.item no_blanks (.string hvalue) no_blanks)⟩
  have all : ∃ text, Spells (.members ms) text := by
    induction ms with
    | nil => exact absurd rfl some_member
    | cons m ms ih =>
      rw [List.forall_mem_cons] at texts
      obtain ⟨first, hfirst⟩ := one texts.1
      by_cases last : ms = []
      · exact ⟨first, last ▸ .lastMember hfirst⟩
      · obtain ⟨more, hmore⟩ := ih last texts.2
        exact ⟨_, .moreMembers hfirst hmore⟩
  obtain ⟨text, written⟩ := all
  exact ⟨_, .object written⟩

end TestWatch.Json
