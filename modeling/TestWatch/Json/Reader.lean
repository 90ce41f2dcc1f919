import TestWatch.Json.Token

/-!
# Reading JSON

A machine with a stack of the containers that are still open takes one token at a time, so a
value may nest to any depth. The text is a value when the machine has closed everything at its
end.
-/

namespace TestWatch.Json

/-- A container that is still open; the latest item or member stands first. -/
inductive Frame where
  | array (items : List Json)
  | object (members : List Member)
  | member (members : List Member) (key : Option (List Char))

inductive State where
  | value (stack : List Frame)
  | firstItem (stack : List Frame)
  | firstKey (stack : List Frame)
  | nextKey (members : List Member) (stack : List Frame)
  | colon (members : List Member) (key : Option (List Char)) (stack : List Frame)
  | next (frame : Frame) (stack : List Frame)
  | done (value : Json)

namespace State

/-- A value is complete: it goes into the container that waits for it. -/
def push (v : Json) : List Frame → State
  | [] => .done v
  | .array items :: stack => .next (.array (v :: items)) stack
  | .object members :: stack => .next (.object members) stack
  | .member members key :: stack => .next (.object ((key, v) :: members)) stack

def beginValue (stack : List Frame) : Token → Option State
  | .openObject => some (.firstKey stack)
  | .openArray => some (.firstItem stack)
  | .null => some (push .null stack)
  | .bool b => some (push (.bool b) stack)
  | .number n => some (push (.number n) stack)
  | .string s => some (push (.string s) stack)
  | _ => none

/-- The effect of one token, or `none` where it cannot stand. -/
def step : State → Token → Option State
  | .value stack, t => beginValue stack t
  | .firstItem stack, .closeArray => some (push (.array []) stack)
  | .firstItem stack, t => beginValue (.array [] :: stack) t
  | .firstKey stack, .closeObject => some (push (.object []) stack)
  | .firstKey stack, .string k => some (.colon [] k stack)
  | .nextKey members stack, .string k => some (.colon members k stack)
  | .colon members k stack, .colon => some (.value (.member members k :: stack))
  | .next (.array items) stack, .comma => some (.value (.array items :: stack))
  | .next (.array items) stack, .closeArray => some (push (.array items.reverse) stack)
  | .next (.object members) stack, .comma => some (.nextKey members stack)
  | .next (.object members) stack, .closeObject => some (push (.object members.reverse) stack)
  | _, _ => none

def value? : State → Option Json
  | .done v => some v
  | _ => none

end State

/-- Feeds a text to the machine; each step uses at least one character. -/
def feed : Nat → State → List Char → Option Json
  | 0, _, _ => none
  | fuel + 1, state, cs =>
    match cs.dropWhile Token.isSpace with
    | [] => state.value?
    | c :: rest =>
      match Token.next? (c :: rest) with
      | none => none
      | some (t, rest) =>
        match state.step t with
        | none => none
        | some state => feed fuel state rest

def ofText? (cs : List Char) : Option Json := feed (cs.length + 1) (.value []) cs

end TestWatch.Json
