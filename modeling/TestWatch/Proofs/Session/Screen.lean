import TestWatch.Proofs.Frame.Rows
import TestWatch.Proofs.Number.Digits
import TestWatch.Proofs.Text.Printable
import TestWatch.Session.Display

/-!
# A screen

A screen without limits, fed with one character after the other. A printable character goes to the
cell of the cursor and moves it on, and a newline moves it to the beginning of the next row. Of the
control sequences, those that a display writes are obeyed: to a column, up some rows, and erase
everything from the cursor on.

`Screen.showing` is the screen on which a text stands. Plain text adds to it, and the sequences that
remove a frame leave what stood above that frame.
-/

namespace TestWatch

/-- How much of a control sequence has come: nothing, the escape character, or the bracket with the
digits after it. -/
inductive Begun where
  | nothing
  | escape
  | sequence (digits : List Char)
  deriving DecidableEq, Repr

/-- The cells by row and column, the row and the column of the cursor, and what has come of a
control sequence. -/
@[ext]
structure Screen where
  cells : Nat → Nat → Option Char
  row : Nat
  column : Nat
  begun : Begun

namespace Screen

def blank : Screen := ⟨fun _ _ => none, 0, 0, .nothing⟩

def put (c : Char) (s : Screen) : Screen :=
  { s with
    cells := fun i j => if i = s.row ∧ j = s.column then some c else s.cells i j
    column := s.column + 1 }

def newline (s : Screen) : Screen := { s with row := s.row + 1, column := 0 }

def erase (s : Screen) : Screen :=
  { s with cells := fun i j => if s.row < i ∨ i = s.row ∧ s.column ≤ j then none else s.cells i j }

/-- A control sequence with a number; one without a number has zero. Columns count from one. -/
def obey (final : Char) (n : Nat) (s : Screen) : Screen :=
  match final with
  | 'G' => { s with column := n - 1 }
  | 'A' => { s with row := s.row - max 1 n }
  | 'J' => if n = 0 then s.erase else s
  | _ => s

def step (s : Screen) (c : Char) : Screen :=
  match s.begun with
  | .nothing =>
    if c = Text.esc then { s with begun := .escape }
    else if c = '\n' then s.newline
    else if Text.Printable c then s.put c
    else s
  | .escape => { s with begun := if c = '[' then .sequence [] else .nothing }
  | .sequence digits =>
    if c.isDigit then { s with begun := .sequence (digits ++ [c]) }
    else obey c (digitsValue digits) { s with begun := .nothing }

def feed (s : Screen) (text : List Char) : Screen := text.foldl step s

theorem feed_append (s : Screen) (as bs : List Char) : s.feed (as ++ bs) = (s.feed as).feed bs :=
  List.foldl_append

def cellAt (rows : List (List Char)) (i j : Nat) : Option Char := rows[i]?.bind fun row => row[j]?

theorem cellAt_concat_concat (init : List (List Char)) (last : List Char) (c : Char) (i j : Nat) :
    cellAt (init ++ [last ++ [c]]) i j =
      if i = init.length ∧ j = last.length then some c else cellAt (init ++ [last]) i j := by
  unfold cellAt
  rcases Nat.lt_trichotomy i init.length with above | here | below
  · rw [if_neg (by omega), List.getElem?_append_left above, List.getElem?_append_left above]
  · subst here
    rw [List.getElem?_concat_length, List.getElem?_concat_length, Option.bind_some,
      Option.bind_some]
    rcases Nat.lt_trichotomy j last.length with before | behind | beyond
    · rw [if_neg (by omega), List.getElem?_append_left before]
    · rw [if_pos ⟨rfl, behind⟩, behind, List.getElem?_concat_length]
    · have nothing : (last ++ [c])[j]? = none := List.getElem?_eq_none (by simp; omega)
      rw [if_neg (by omega), nothing, List.getElem?_eq_none (Nat.le_of_lt beyond)]
  · have nothing (row : List Char) : (init ++ [row])[i]? = none :=
      List.getElem?_eq_none (by simp; omega)
    rw [if_neg (by omega), nothing, nothing]

theorem cellAt_concat_nil (rows : List (List Char)) : cellAt (rows ++ [[]]) = cellAt rows := by
  funext i j
  unfold cellAt
  rcases Nat.lt_or_ge i rows.length with above | below
  · rw [List.getElem?_append_left above]
  · rw [List.getElem?_append_right below, List.getElem?_eq_none below]
    cases i - rows.length <;> rfl

theorem cellAt_append (rows more : List (List Char)) (i j : Nat) :
    (if rows.length ≤ i then none else cellAt (rows ++ more) i j) = cellAt rows i j := by
  unfold cellAt
  split
  · rw [List.getElem?_eq_none ‹_›]
    rfl
  · rw [List.getElem?_append_left (by omega)]

/-- The screen on which a text stands row by row, with the cursor behind it. -/
def showing (text : List Char) : Screen where
  cells := cellAt (text.splitOn '\n')
  row := text.count '\n'
  column := ((text.splitOn '\n').getLast?.getD []).length
  begun := .nothing

theorem showing_nil : showing [] = blank := by
  have cells : cellAt [[]] = fun _ _ => none := (cellAt_concat_nil []).trans rfl
  rw [showing, blank, List.splitOn_nil, cells]
  rfl

theorem put_showing {c : Char} (hc : c ≠ '\n') (text : List Char) :
    (showing text).put c = showing (text ++ [c]) := by
  obtain ⟨init, last, old, new⟩ :=
    exists_splitOn_append (a := '\n') (t := [c]) (by simpa using hc.symm) text
  have row : text.count '\n' = init.length := by
    have := length_splitOn '\n' text
    rw [old, List.length_append, List.length_singleton] at this
    omega
  have column : ((text.splitOn '\n').getLast?.getD []).length = last.length := by simp [old]
  ext1
  case cells =>
    funext i j
    change (if i = text.count '\n' ∧ j = ((text.splitOn '\n').getLast?.getD []).length then some c
      else cellAt (text.splitOn '\n') i j) = cellAt ((text ++ [c]).splitOn '\n') i j
    rw [row, column, old, new, cellAt_concat_concat]
  case row => simp [put, showing, hc]
  case column => simp [put, showing, old, new]
  case begun => rfl

theorem newline_showing (text : List Char) : (showing text).newline = showing (text ++ ['\n']) := by
  have rows : (text ++ ['\n']).splitOn '\n' = text.splitOn '\n' ++ [[]] :=
    List.splitOn_append_cons_self text []
  ext1
  case cells =>
    change cellAt (text.splitOn '\n') = cellAt ((text ++ ['\n']).splitOn '\n')
    rw [rows, cellAt_concat_nil]
  case row => simp [newline, showing]
  case column => simp [newline, showing, rows]
  case begun => rfl

end Screen

def Text.PrintedRows (text : List Char) : Prop := ∀ c ∈ text, c = '\n' ∨ Text.Printable c

instance (text : List Char) : Decidable (Text.PrintedRows text) :=
  List.decidableBAll (fun c => c = '\n' ∨ Text.Printable c) text

namespace Screen

theorem step_showing {c : Char} (hc : c = '\n' ∨ Text.Printable c) (text : List Char) :
    (showing text).step c = showing (text ++ [c]) := by
  change (if c = Text.esc then _ else if c = '\n' then (showing text).newline
    else if Text.Printable c then (showing text).put c else showing text) = _
  rcases hc with rfl | printable
  · rw [if_neg (by decide), if_pos rfl, newline_showing]
  · have not_newline : c ≠ '\n' := printable.ne (by decide)
    rw [if_neg (printable.ne (by decide)), if_neg not_newline, if_pos printable,
      put_showing not_newline]

/-- Plain text stands behind what the screen shows. -/
theorem feed_showing {more : List Char} (plain : Text.PrintedRows more) (text : List Char) :
    (showing text).feed more = showing (text ++ more) := by
  induction more generalizing text with
  | nil => simp [feed]
  | cons c cs ih =>
    have rest := ih (fun d hd => plain d (List.mem_cons_of_mem _ hd)) (text ++ [c])
    rw [List.append_assoc, List.singleton_append] at rest
    rw [← rest, ← step_showing (plain c List.mem_cons_self)]
    rfl

section Sequences

variable {s : Screen} (hs : s.begun = .nothing)
include hs

theorem feed_sequence (digits : List Char) (final : Char)
    (hd : ∀ c ∈ digits, c.isDigit = true) (hf : final.isDigit = false) :
    s.feed (Text.esc :: '[' :: (digits ++ [final])) = obey final (digitsValue digits) s := by
  have digits_read (read more : List Char) (hm : ∀ c ∈ more, c.isDigit = true) :
      ({ s with begun := .sequence read } : Screen).feed more =
        { s with begun := .sequence (read ++ more) } := by
    induction more generalizing read with
    | nil => simp [feed]
    | cons c cs ih =>
      have rest := ih (read ++ [c]) fun d hd => hm d (List.mem_cons_of_mem _ hd)
      rw [List.append_assoc, List.singleton_append] at rest
      rw [← rest]
      simp [feed, step, hm c List.mem_cons_self]
  have opened : s.feed [Text.esc, '['] = { s with begun := .sequence [] } := by
    simp [feed, step, hs]
  have split : Text.esc :: '[' :: (digits ++ [final]) =
      [Text.esc, '['] ++ (digits ++ [final]) := rfl
  rw [split, feed_append, opened, feed_append, digits_read [] digits hd, List.nil_append]
  have restored : ({ s with begun := .nothing } : Screen) = s := by
    rw [← hs]
  simp [feed, step, hf, restored]

/-- The sequences that remove a frame: the cursor goes to the beginning of its first row, and
everything from there on is erased. -/
theorem feed_clearing {rows : Nat} (some_row : 0 < rows) (reach : rows ≤ Display.maxUp + 1) :
    s.feed (Display.clearing rows) =
      ({ s with row := s.row - (rows - 1), column := 0 } : Screen).erase := by
  have to_column : s.feed (Text.esc :: "[1G".toList) = { s with column := 0 } :=
    feed_sequence hs ['1'] 'G' (by simp) (by decide)
  have erased (t : Screen) (ht : t.begun = .nothing) :
      t.feed (Text.esc :: "[J".toList) = t.erase :=
    feed_sequence ht [] 'J' (by simp) (by decide)
  rw [Display.clearing, if_neg (by omega), feed_append, feed_append, to_column]
  by_cases one : rows = 1
  · rw [if_pos one, one]
    exact erased _ hs
  · have up : ({ s with column := 0 } : Screen).feed
        (Text.esc :: '[' :: (decimal (min (rows - 1) Display.maxUp) ++ ['A'])) =
          { s with row := s.row - (rows - 1), column := 0 } := by
      have all : min (rows - 1) Display.maxUp = rows - 1 := by omega
      rw [all, feed_sequence (by exact hs) _ 'A' (fun c => isDigit_of_mem_decimal) (by decide),
        digitsValue_decimal]
      have some_up : max 1 (rows - 1) = rows - 1 := by omega
      simp only [obey, some_up]
    rw [if_neg one, up]
    exact erased _ hs

end Sequences

/-- What comes next begins a row. -/
def BeginsRow (text : List Char) : Prop := text = [] ∨ ∃ t, text = t ++ ['\n']

/-- A text that begins a row does not change those above. -/
theorem BeginsRow.exists_splitOn {text : List Char} (h : BeginsRow text) :
    ∃ above : List (List Char), above.length = text.count '\n' ∧
      ∀ more : List Char, (text ++ more).splitOn '\n' = above ++ more.splitOn '\n' := by
  rcases h with rfl | ⟨t, rfl⟩
  · exact ⟨[], rfl, fun _ => rfl⟩
  · refine ⟨t.splitOn '\n', by simp [length_splitOn], fun more => ?_⟩
    rw [List.append_assoc, List.singleton_append, List.splitOn_append_cons_self]

/-- Once the cursor is back at the beginning of a frame, erasing leaves what stood above. -/
theorem erase_showing {text : List Char} (h : BeginsRow text) (frame : List Char) :
    ({ showing (text ++ frame) with
        row := (text ++ frame).count '\n' - frame.count '\n', column := 0 } : Screen).erase =
      showing text := by
  obtain ⟨above, length, rows⟩ := h.exists_splitOn
  have kept : text.splitOn '\n' = above ++ [[]] := by simpa using rows []
  have row : (text ++ frame).count '\n' - frame.count '\n' = above.length := by
    rw [List.count_append, length]
    omega
  rw [row]
  ext1
  case cells =>
    funext i j
    change (if above.length < i ∨ i = above.length ∧ 0 ≤ j then none
      else cellAt ((text ++ frame).splitOn '\n') i j) = cellAt (text.splitOn '\n') i j
    have from_here : (above.length < i ∨ i = above.length ∧ 0 ≤ j) ↔ above.length ≤ i := by omega
    rw [rows, kept, cellAt_concat_nil, if_congr from_here rfl rfl, cellAt_append]
  case row => exact length
  case column => simp [erase, showing, kept]
  case begun => rfl

end Screen
end TestWatch
