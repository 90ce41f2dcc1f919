import TestWatch.Toml.Bare

/-!
# Reading keys and values

A machine with a stack of the arrays and inline tables that are still open. Within their brackets
newlines and comments count as blanks, except within a dotted key, and a comma may stand before
the closing one.
-/

namespace TestWatch.Toml

def skipSpaces (cs : List Char) : List Char := cs.dropWhile isSpace

def skipBlanks (inComment : Bool) : List Char → List Char
  | [] => []
  | '\r' :: '\n' :: cs => skipBlanks false cs
  | c :: cs =>
    if c == '\n' then skipBlanks false cs
    else if inComment then if isPlain c then skipBlanks true cs else c :: cs
    else if isSpace c then skipBlanks false cs
    else if c == '#' then skipBlanks true cs
    else c :: cs

namespace Key

def isPart (c : Char) : Bool := c.isAlphanum || c == '_' || c == '-'

def part? (cs : List Char) : Option (String × List Char) :=
  match cs with
  | '"' :: _ | '\'' :: _ => (Quoted.short? cs).map fun (k, rest) => (String.ofList k, rest)
  | _ =>
    let k := cs.takeWhile isPart
    if k.isEmpty then none else some (String.ofList k, cs.dropWhile isPart)

/-- Keys joined by dots, `left` at most, after some others; the last one comes apart from its
path. -/
def read? (left : Nat) (path : List String) (cs : List Char) :
    Option (List String × String × List Char) :=
  match left with
  | 0 => none
  | left + 1 =>
    match part? (skipSpaces cs) with
    | none => none
    | some (k, rest) =>
      match skipSpaces rest with
      | '.' :: rest => read? left (path ++ [k]) rest
      | rest => some (path, k, rest)

def maxParts : Nat := 80

def path? (cs : List Char) : Option (List String × String × List Char) := read? maxParts [] cs

end Key

namespace Value

/-- A container that is still open and waits for a value: the items so far, last first, or the
members so far and the key that the value belongs to. -/
inductive Frame where
  | array (items : List Value)
  | member (members : Members) (path : List String) (key : String)

/-- What the machine expects next. -/
inductive State where
  | value (stack : List Frame)
  | item (items : List Value) (stack : List Frame)
  | afterItem (items : List Value) (stack : List Frame)
  | key (members : Members) (stack : List Frame)
  | afterMember (members : Members) (stack : List Frame)
  | done (value : Value)

def maxDepth : Nat := 80

def push (v : Value) : List Frame → Option State
  | [] => some (.done v)
  | .array items :: stack => some (.afterItem (v :: items) stack)
  | .member members path key :: stack =>
    (members.assign path key v .inlined).map fun ms => .afterMember ms stack

def start (stack : List Frame) (cs : List Char) : Option (State × List Char) :=
  match cs with
  | '[' :: cs => if stack.length < maxDepth then some (.item [] stack, cs) else none
  | '{' :: cs => if stack.length < maxDepth then some (.key [] stack, cs) else none
  | '"' :: _ | '\'' :: _ => do
    let (s, rest) ← Quoted.read? cs
    let state ← push (.text (String.ofList s)) stack
    some (state, rest)
  | _ => do
    let (v, rest) ← Bare.read? cs
    let state ← push v stack
    some (state, rest)

def close (v : Value) (stack : List Frame) (cs : List Char) : Option (State × List Char) :=
  (push v stack).map fun state => (state, cs)

def step (state : State) (cs : List Char) : Option (State × List Char) :=
  match state with
  | .value stack => start stack (skipSpaces cs)
  | .item items stack =>
    match skipBlanks false cs with
    | ']' :: cs => close (.array items.reverse) stack cs
    | cs => start (.array items :: stack) cs
  | .afterItem items stack =>
    match skipBlanks false cs with
    | ',' :: cs => some (.item items stack, cs)
    | ']' :: cs => close (.array items.reverse) stack cs
    | _ => none
  | .key members stack =>
    match skipBlanks false cs with
    | '}' :: cs => close (.table .inlined members) stack cs
    | cs => do
      let (path, key, rest) ← Key.path? cs
      let rest ← Bare.mark? '=' (skipBlanks false rest)
      some (.value (.member members path key :: stack), skipBlanks false rest)
  | .afterMember members stack =>
    match skipBlanks false cs with
    | ',' :: cs => some (.key members stack, cs)
    | '}' :: cs => close (.table .inlined members) stack cs
    | _ => none
  | .done _ => none

def run : Nat → State → List Char → Option (Value × List Char)
  | _, .done v, cs => some (v, cs)
  | 0, _, _ => none
  | fuel + 1, state, cs =>
    match step state cs with
    | some (state, cs) => run fuel state cs
    | none => none

/-- The value in front of a text; each step uses at least one character. -/
def read? (cs : List Char) : Option (Value × List Char) := run (cs.length + 1) (.value []) cs

end Value

end TestWatch.Toml
