import TestWatch.Event.Basic
import TestWatch.Json.Reader
import TestWatch.Time.Rfc3339

/-!
# Lines of an event stream

A line that holds one JSON object with the members of an event is that event; any other line is
passed on as it is, without the line ending.
-/

namespace TestWatch

inductive Line where
  | event (event : TestEvent)
  | raw (text : String)
  deriving DecidableEq, Repr

namespace Line

def memberNames : List String := ["Time", "Action", "Package", "Test", "Output", "Elapsed"]

/-- A text; half of a surrogate pair makes it none. -/
def text? : Json → Option String
  | .string s => s.map String.ofList
  | _ => none

/-- An action by name, or as the one key of an object whose value is null. -/
def action? : Json → Option Action
  | .string s => s.map fun cs => Action.ofName (String.ofList cs)
  | .object [(some key, .null)] => some (Action.ofName (String.ofList key))
  | _ => none

def time? (j : Json) : Option Timestamp := (text? j).bind fun s => Timestamp.ofText? s.toList

/-- Elapsed seconds: null means none. -/
def elapsed? : Json → Option (Option Binary64)
  | .null => some none
  | .number n => (Binary64.ofNumeral? n).map some
  | _ => none

def required? {α : Type} (read : Json → Option α) : List Json → Option α
  | [j] => read j
  | _ => none

def optional? {α : Type} (default : α) (read : Json → Option α) : List Json → Option α
  | [] => some default
  | js => required? read js

def keysAreTexts (members : List Json.Member) : Bool := members.all fun m => m.1.isSome

/-- The event that the members of an object make up. No known member may be repeated; others are
ignored. -/
def eventOf? (members : List Json.Member) : Option TestEvent :=
  let values (name : String) : List Json := Json.valuesOf name.toList members
  if keysAreTexts members then do
    let time ← required? time? (values "Time")
    let action ← required? action? (values "Action")
    let package ← optional? "" text? (values "Package")
    let test ← optional? "" text? (values "Test")
    let output ← optional? "" text? (values "Output")
    let elapsed ← optional? none elapsed? (values "Elapsed")
    some ⟨time, action, package, test, output, elapsed⟩
  else none

def ofJson? : Json → Option TestEvent
  | .object members => eventOf? members
  | _ => none

def isEnding (c : Char) : Bool := c == '\r' || c == '\n'

def read (line : String) : Line :=
  let text := Text.dropEndWhile isEnding line.toList
  match (Json.ofText? text).bind ofJson? with
  | some e => .event e
  | none => .raw (String.ofList text)

end Line

end TestWatch
