import TestWatch.Number.Decimal

/-!
# JSON values

The tree of a JSON text. Numbers are kept as numerals, members in the order in which they are
written and with repeats. A string is `none` when its escapes leave half of a surrogate pair:
such a string is well formed, but it is no text.
-/

namespace TestWatch

inductive Json where
  | null
  | bool (value : Bool)
  | number (numeral : Numeral)
  | string (text : Option (List Char))
  | array (items : List Json)
  | object (members : List (Option (List Char) × Json))
  deriving Inhabited

namespace Json

/-- A member of an object: its key and its value. -/
abbrev Member := Option (List Char) × Json

def valuesOf (key : List Char) (members : List Member) : List Json :=
  (members.filter fun m => m.1 == some key).map Prod.snd

end Json

end TestWatch
