import TestWatch.Text.Hex

/-!
# Quoted strings

Strings in double quotes have escapes, strings in single quotes have none. Three quotes begin a
string that may span lines; a newline right after them does not count, and up to two quotes may
stand before the three that end it.
-/

namespace TestWatch.Toml

def isSpace (c : Char) : Bool := c == ' ' || c == '\t'

def isPlain (c : Char) : Bool := c == '\t' || (0x20 ≤ c.toNat && c.toNat != 0x7F)

def newline? : List Char → Option (List Char)
  | '\n' :: cs => some cs
  | '\r' :: '\n' :: cs => some cs
  | _ => none

namespace Quoted

def escaped? : Char → Option Char
  | 'b' => some '\x08'
  | 't' => some '\t'
  | 'n' => some '\n'
  | 'f' => some '\x0c'
  | 'r' => some '\r'
  | 'e' => some '\x1b'
  | '"' => some '"'
  | '\\' => some '\\'
  | _ => none

def numbered? (digits : List Char) : Option Char := (hexValue? digits).bind charOfNat?

def cons (c : Char) (r : Option (List Char × List Char)) : Option (List Char × List Char) :=
  r.map fun (cs, rest) => (c :: cs, rest)

def cons? (c : Option Char) (r : Option (List Char × List Char)) :
    Option (List Char × List Char) :=
  c.bind fun c => cons c r

/-- A string after one single quote. -/
def literal : List Char → Option (List Char × List Char)
  | [] => none
  | '\'' :: cs => some ([], cs)
  | c :: cs => if isPlain c then cons c (literal cs) else none

/-- A string after one double quote. -/
def basic : List Char → Option (List Char × List Char)
  | [] => none
  | '"' :: cs => some ([], cs)
  | '\\' :: 'x' :: a :: b :: cs => cons? (numbered? [a, b]) (basic cs)
  | '\\' :: 'u' :: a :: b :: c :: d :: cs => cons? (numbered? [a, b, c, d]) (basic cs)
  | '\\' :: 'U' :: a :: b :: c :: d :: e :: f :: g :: h :: cs =>
    cons? (numbered? [a, b, c, d, e, f, g, h]) (basic cs)
  | '\\' :: c :: cs => cons? (escaped? c) (basic cs)
  | c :: cs => if isPlain c then cons c (basic cs) else none

/-- A string after three single quotes. -/
def longLiteral : List Char → Option (List Char × List Char)
  | [] => none
  | '\'' :: '\'' :: '\'' :: '\'' :: '\'' :: cs => some (['\'', '\''], cs)
  | '\'' :: '\'' :: '\'' :: '\'' :: cs => some (['\''], cs)
  | '\'' :: '\'' :: '\'' :: cs => some ([], cs)
  | '\r' :: '\n' :: cs => cons '\r' (cons '\n' (longLiteral cs))
  | c :: cs => if isPlain c || c == '\n' then cons c (longLiteral cs) else none

/-- Where a string stands that may span lines. -/
inductive Place where
  | text
  /-- After a backslash at the end of a line. -/
  | lineEnd
  /-- In the blanks that such a backslash takes away. -/
  | skipped
  deriving DecidableEq, Repr

/-- A string after three double quotes. -/
def longBasic : Place → List Char → Option (List Char × List Char)
  | _, [] => none
  | .lineEnd, '\r' :: '\n' :: cs => longBasic .skipped cs
  | .lineEnd, c :: cs =>
    if c == '\n' then longBasic .skipped cs else if isSpace c then longBasic .lineEnd cs else none
  | .skipped, '\r' :: '\n' :: cs => longBasic .skipped cs
  | .skipped, ' ' :: cs => longBasic .skipped cs
  | .skipped, '\t' :: cs => longBasic .skipped cs
  | .skipped, '\n' :: cs => longBasic .skipped cs
  | _, '"' :: '"' :: '"' :: '"' :: '"' :: cs => some (['"', '"'], cs)
  | _, '"' :: '"' :: '"' :: '"' :: cs => some (['"'], cs)
  | _, '"' :: '"' :: '"' :: cs => some ([], cs)
  | _, '\\' :: 'x' :: a :: b :: cs => cons? (numbered? [a, b]) (longBasic .text cs)
  | _, '\\' :: 'u' :: a :: b :: c :: d :: cs =>
    cons? (numbered? [a, b, c, d]) (longBasic .text cs)
  | _, '\\' :: 'U' :: a :: b :: c :: d :: e :: f :: g :: h :: cs =>
    cons? (numbered? [a, b, c, d, e, f, g, h]) (longBasic .text cs)
  | _, '\\' :: '\r' :: '\n' :: cs => longBasic .skipped cs
  | _, '\\' :: c :: cs =>
    if c == '\n' then longBasic .skipped cs
    else if isSpace c then longBasic .lineEnd cs
    else cons? (escaped? c) (longBasic .text cs)
  | _, '\r' :: '\n' :: cs => cons '\r' (cons '\n' (longBasic .text cs))
  | _, c :: cs => if isPlain c || c == '\n' then cons c (longBasic .text cs) else none

def skipNewline (cs : List Char) : List Char := (newline? cs).getD cs

def short? : List Char → Option (List Char × List Char)
  | '"' :: cs => basic cs
  | '\'' :: cs => literal cs
  | _ => none

def read? : List Char → Option (List Char × List Char)
  | '"' :: '"' :: '"' :: cs => longBasic .text (skipNewline cs)
  | '\'' :: '\'' :: '\'' :: cs => longLiteral (skipNewline cs)
  | cs => short? cs

end Quoted

end TestWatch.Toml
