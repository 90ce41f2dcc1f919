import TestWatch.Toml.Reader

/-!
# Documents

A document is a sequence of statements, one to a line: a header that opens a table, or a key with a
value for the table that was opened last. It stands for one table; no key in it is given a value
twice.
-/

namespace TestWatch.Toml

inductive Statement where
  | table (path : List String) (key : String)
  | element (path : List String) (key : String)
  | assign (path : List String) (key : String) (value : Value)

namespace Statement

/-- The text after the end of a line, which may hold blanks and a comment. -/
def afterLine? (cs : List Char) : Option (List Char) :=
  let rest := match skipSpaces cs with
    | '#' :: cs => cs.dropWhile isPlain
    | cs => cs
  if rest.isEmpty then some [] else newline? rest

def read? (cs : List Char) : Option (Statement × List Char) :=
  match cs with
  | '[' :: '[' :: cs => do
    let (path, key, rest) ← Key.path? cs
    let rest ← Bare.mark? ']' (skipSpaces rest)
    let rest ← Bare.mark? ']' rest
    some (.element path key, rest)
  | '[' :: cs => do
    let (path, key, rest) ← Key.path? cs
    let rest ← Bare.mark? ']' (skipSpaces rest)
    some (.table path key, rest)
  | _ => do
    let (path, key, rest) ← Key.path? cs
    let rest ← Bare.mark? '=' (skipSpaces rest)
    let (v, rest) ← Value.read? rest
    some (.assign path key v, rest)

/-- All statements; every line uses at least one character. -/
def readAll? : Nat → List Char → Option (List Statement)
  | 0, _ => none
  | fuel + 1, cs =>
    match skipBlanks false cs with
    | [] => some []
    | c :: cs => do
      let (s, rest) ← read? (c :: cs)
      let rest ← afterLine? rest
      let more ← readAll? fuel rest
      some (s :: more)

end Statement

/-- A document so far, and the path of the table that was opened last. -/
structure Document where
  members : Members
  current : List String

namespace Document

def empty : Document := ⟨[], []⟩

def under (path : List String) (f : Origin → Members → Option Members) (d : Document) :
    Option Members :=
  Members.extend false f path .header d.members

def add (d : Document) : Statement → Option Document
  | .table path key =>
    (d.under path fun _ ms => ms.openTable key).map fun ms => ⟨ms, path ++ [key]⟩
  | .element path key =>
    (d.under path fun _ ms => ms.openElement key).map fun ms => ⟨ms, path ++ [key]⟩
  | .assign path key v =>
    (d.under d.current fun origin ms => ms.assign path key v origin).map fun ms => ⟨ms, d.current⟩

/-- A byte order mark in front does not count. -/
def skipMark : List Char → List Char
  | '\uFEFF' :: cs => cs
  | cs => cs

def ofText? (cs : List Char) : Option Members := do
  let text := skipMark cs
  let statements ← Statement.readAll? (text.length + 1) text
  let d ← statements.foldlM add empty
  some d.members

end Document

end TestWatch.Toml
