/-!
# TOML values

The tree of a settings file. A table remembers how it came about, because that decides what may
still be added to it: a table with a header of its own can be opened only once, one that was only
implied by a longer header may get its header later or be claimed by dotted keys, one made or
claimed by dotted keys grows by them only, and one written inline is complete.
-/

namespace TestWatch.Toml

/-- How a table came about. -/
inductive Origin where
  | header
  | implied
  | dotted
  | inlined
  deriving DecidableEq, Repr

/-- How a table stands once a path leads through it: dotted keys claim what was only implied. -/
def Origin.claimed (dotted : Bool) : Origin → Origin
  | .implied => if dotted then .dotted else .implied
  | origin => origin

/-- A value. Of a date only the fact is kept, and of a float. -/
inductive Value where
  | text (s : String)
  | integer (n : Int)
  | float
  | bool
  | date
  | array (items : List Value)
  | table (origin : Origin) (members : List (String × Value))
  /-- Tables under one header in double brackets. -/
  | tables (elements : List (List (String × Value)))
  deriving Inhabited

abbrev Members := List (String × Value)

namespace Members

def get? (ms : Members) (key : String) : Option Value := ms.lookup key

def set (key : String) (v : Value) (ms : Members) : Members :=
  ms.map fun m => if m.1 == key then (key, v) else m

/-- Goes down a path, making tables where there are none, and changes the table at its end. Dotted
keys never reach into a table that has its own header. -/
def extend (dotted : Bool) (f : Origin → Members → Option Members) :
    List String → Origin → Members → Option Members
  | [], origin, ms => f origin ms
  | key :: path, _, ms =>
    match ms.get? key with
    | none => do
      let origin := if dotted then .dotted else .implied
      let inner ← extend dotted f path origin []
      some (ms ++ [(key, .table origin inner)])
    | some (.table origin inner) =>
      if origin = .inlined ∨ (dotted ∧ origin = .header) then none
      else do
        let origin := origin.claimed dotted
        let inner ← extend dotted f path origin inner
        some (ms.set key (.table origin inner))
    | some (.tables elements) =>
      match elements.getLast? with
      | some last => do
        let last ← extend dotted f path .header last
        some (ms.set key (.tables (elements.dropLast ++ [last])))
      | none => none
    | some _ => none

/-- A new key at the end of a path. A dotted key may add only to what dotted keys have made, and a
plain key only to what they have not. -/
def assign (path : List String) (key : String) (v : Value) (origin : Origin) (ms : Members) :
    Option Members :=
  extend true
    (fun origin inner =>
      if origin = .dotted ↔ path = [] then none
      else if (inner.get? key).isSome then none
      else some (inner ++ [(key, v)]))
    path origin ms

def openTable (key : String) (ms : Members) : Option Members :=
  match ms.get? key with
  | none => some (ms ++ [(key, .table .header [])])
  | some (.table .implied inner) => some (ms.set key (.table .header inner))
  | some _ => none

def openElement (key : String) (ms : Members) : Option Members :=
  match ms.get? key with
  | none => some (ms ++ [(key, .tables [[]])])
  | some (.tables elements) => some (ms.set key (.tables (elements ++ [[]])))
  | some _ => none

end Members

end TestWatch.Toml
