import TestWatch.Text.Visible

/-!
# Cutting texts at a column

When a text is cut or its tabs are replaced, its escape sequences have to be kept whole. Here a
sequence is what `sequenceLength?` matches: an operating system command or device control string
up to its end, or else the longest match of a small automaton. `marked` tells for each character
whether it belongs to a sequence; all that is not marked counts columns.
-/

namespace TestWatch.Text

/-- Where the automaton is after the escape character. -/
inductive Scan where
  | start
  | charset
  | charsetChosen
  | intro
  /-- One to four digits of a number, and a digit too many. -/
  | digit
  | twoDigits
  | threeDigits
  | fourDigits
  | extraDigit
  | separator
  | complete
  deriving DecidableEq, Repr, Inhabited

namespace Scan

def accepts : Scan → Bool
  | charsetChosen | digit | twoDigits | threeDigits | fourDigits | extraDigit | complete => true
  | start | charset | intro | separator => false

def isLast (c : Char) : Bool :=
  ('A' ≤ c && c ≤ 'P') || c == 'R' || c == 'Z' || c == 'c' || ('f' ≤ c && c ≤ 'n') ||
    c == 'q' || c == 'r' || c == 'y' || c == '=' || c == '>' || c == '<'

def next? (s : Scan) (c : Char) : Option Scan :=
  if c = '(' ∨ c = ')' then
    match s with
    | start => some charset
    | charset | intro => some intro
    | _ => none
  else if c = ';' then
    match s with
    | start | charset | intro => some intro
    | digit | twoDigits | threeDigits | fourDigits | separator => some separator
    | _ => none
  else if c = '[' ∨ c = '#' ∨ c = '?' then
    match s with
    | start | charset | intro => some intro
    | _ => none
  else if c.isDigit then
    match s with
    | start | intro | separator => some digit
    | charset => if c ≤ '2' then some charsetChosen else some digit
    | digit => some twoDigits
    | twoDigits => some threeDigits
    | threeDigits => some fourDigits
    | fourDigits => some extraDigit
    | _ => none
  else if isLast c then
    match s with
    | start | charset | intro | digit | twoDigits | threeDigits | fourDigits | separator =>
      some complete
    | _ => none
  else none

/-- The length of the longest match, where `n` characters are behind and `best` is the longest
match among them. -/
def longest? (s : Scan) (n : Nat) (best : Option Nat) : List Char → Option Nat
  | [] => best
  | c :: cs =>
    match s.next? c with
    | none => best
    | some s => longest? s (n + 1) (if s.accepts then some (n + 1) else best) cs

end Scan

/-- The length of an operating system command up to and with its end: a bell, a string terminator
in either form, or the end of the text. -/
def commandLength : List Char → Nat
  | [] => 0
  | '\x1b' :: '\\' :: _ => 2
  | c :: cs => if c = '\u009c' ∨ c = '\x07' then 1 else 1 + commandLength cs

/-- The length of a device control string up to and with its end: a string terminator in either
form, or the end of the text. An escape character takes the next character with it, so a second
escape character begins no terminator. -/
def controlLength : List Char → Nat
  | [] => 0
  | '\x1b' :: '\\' :: _ => 2
  | '\x1b' :: _ :: cs => 2 + controlLength cs
  | c :: cs => if c = '\u009c' then 1 else 1 + controlLength cs

def sequenceLength? : List Char → Option Nat
  | '\x1b' :: ']' :: cs => some (2 + commandLength cs)
  | '\x1b' :: 'P' :: cs => some (2 + controlLength cs)
  | '\x1b' :: cs => Scan.longest? .start 1 none cs
  | '\u009b' :: cs => Scan.longest? .start 1 none cs
  | _ => none

/-- Each character with whether it belongs to a sequence; the next `left` do in any case. -/
def markedFrom (left : Nat) : List Char → List (Char × Bool)
  | [] => []
  | c :: cs =>
    match left with
    | n + 1 => (c, true) :: markedFrom n cs
    | 0 =>
      match sequenceLength? (c :: cs) with
      | some (n + 1) => (c, true) :: markedFrom n cs
      | _ => (c, false) :: markedFrom 0 cs

def marked (cs : List Char) : List (Char × Bool) := markedFrom 0 cs

theorem map_fst_markedFrom (left : Nat) (cs : List Char) :
    (markedFrom left cs).map Prod.fst = cs := by
  induction cs generalizing left with
  | nil => rfl
  | cons c cs ih =>
    cases left with
    | succ n => simp [markedFrom, ih]
    | zero =>
      rw [markedFrom]
      split <;> simp [ih]

/-- The cut at column `limit`, where `column` is reached. Sequences are all kept. A stretch of
other characters that begins at or beyond the limit is dropped; one that begins before it is kept
up to the first character that would reach beyond. -/
def cutFrom (limit column : Nat) (within : Bool) : List (Char × Bool) → List Char
  | [] => []
  | (c, true) :: cs => c :: cutFrom limit column (column < limit) cs
  | (c, false) :: cs =>
    if within then
      let column := column + charWidth c
      if column ≤ limit then c :: cutFrom limit column true cs
      else cutFrom limit column false cs
    else cutFrom limit column false cs

def cut (limit : Nat) (cs : List Char) : List Char :=
  cutFrom limit 0 (0 < limit) (marked cs)

theorem mem_of_mem_cutFrom {limit column : Nat} {within : Bool} {ms : List (Char × Bool)} {c : Char}
    (h : c ∈ cutFrom limit column within ms) : c ∈ ms.map Prod.fst := by
  induction ms generalizing column within with
  | nil => cases h
  | cons m ms ih =>
    obtain ⟨d, marked⟩ := m
    have rest {column : Nat} {within : Bool} (h : c ∈ cutFrom limit column within ms) :
        c ∈ d :: ms.map Prod.fst := List.mem_cons_of_mem _ (ih h)
    have here {column : Nat} {within : Bool} (h : c ∈ d :: cutFrom limit column within ms) :
        c ∈ d :: ms.map Prod.fst := by
      rcases List.mem_cons.1 h with rfl | h
      · exact List.mem_cons_self
      · exact rest h
    rw [List.map_cons]
    cases marked with
    | true => exact here h
    | false =>
      rw [cutFrom] at h
      split at h
      · simp only at h
        split at h
        · exact here h
        · exact rest h
      · exact rest h

theorem mem_of_mem_cut {limit : Nat} {cs : List Char} {c : Char} (h : c ∈ cut limit cs) :
    c ∈ cs := by
  have := mem_of_mem_cutFrom h
  rwa [marked, map_fst_markedFrom] at this

def tabWidth : Nat := 8

def expandFrom (column : Nat) : List (Char × Bool) → List Char
  | [] => []
  | (c, true) :: cs => c :: expandFrom column cs
  | (c, false) :: cs =>
    if c = '\t' then
      let spaces := tabWidth - column % tabWidth
      List.replicate spaces ' ' ++ expandFrom (column + spaces) cs
    else c :: expandFrom (column + charWidth c) cs

/-- Replaces tabs by spaces up to the next tab stop. Tabs within sequences stay. -/
def expandTabs (cs : List Char) : List Char := expandFrom 0 (marked cs)

def tabColumnsFrom (column : Nat) : List (Char × Bool) → List Nat
  | [] => []
  | (_, true) :: cs => tabColumnsFrom column cs
  | (c, false) :: cs =>
    if c = '\t' then column :: tabColumnsFrom (column + (tabWidth - column % tabWidth)) cs
    else tabColumnsFrom (column + charWidth c) cs

def tabColumns (cs : List Char) : List Nat := tabColumnsFrom 0 (marked cs)

theorem mem_of_mem_expandFrom {column : Nat} {ms : List (Char × Bool)} {c : Char}
    (h : c ∈ expandFrom column ms) : c = ' ' ∨ c ∈ ms.map Prod.fst := by
  induction ms generalizing column with
  | nil => cases h
  | cons m ms ih =>
    obtain ⟨d, marked⟩ := m
    have rest {column : Nat} (h : c ∈ expandFrom column ms) :
        c = ' ' ∨ c ∈ d :: ms.map Prod.fst := (ih h).imp_right (List.mem_cons_of_mem _)
    have here {column : Nat} (h : c ∈ d :: expandFrom column ms) :
        c = ' ' ∨ c ∈ d :: ms.map Prod.fst := by
      rcases List.mem_cons.1 h with rfl | h
      · exact .inr List.mem_cons_self
      · exact rest h
    rw [List.map_cons]
    cases marked with
    | true => exact here h
    | false =>
      rw [expandFrom] at h
      split at h
      · rcases List.mem_append.1 h with h | h
        · exact .inl (List.eq_of_mem_replicate h)
        · exact rest h
      · exact here h

theorem mem_of_mem_expandTabs {cs : List Char} {c : Char} (h : c ∈ expandTabs cs) :
    c = ' ' ∨ c ∈ cs := by
  have := mem_of_mem_expandFrom h
  rwa [marked, map_fst_markedFrom] at this

def reset : List Char := [esc, '[', '0', 'm']

def switchOn (codes : List Char) : List Char := esc :: '[' :: codes ++ ['m']

/-- Ends a line that holds escape sequences with a reset, so that no style goes on into the lines
that follow. -/
def ensureReset (cs : List Char) : List Char :=
  if cs.contains esc && !reset.isSuffixOf cs then cs ++ reset else cs

theorem mem_of_mem_ensureReset {cs : List Char} {c : Char} (h : c ∈ ensureReset cs) :
    c ∈ cs ∨ c ∈ reset := by
  unfold ensureReset at h
  split at h
  · exact List.mem_append.1 h
  · exact .inl h

end TestWatch.Text
