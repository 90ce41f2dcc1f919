import TestWatch.Text.Blank
import TestWatch.Text.Sequence
import Mathlib.Data.List.Basic

/-!
# Clean texts

What a terminal takes for an escape sequence and what is kept whole when a text is cut are not the
same for all texts. Both agree on clean ones, which hold single characters and complete control
sequences only: there the sequences print nothing, and everything else counts columns. Cutting,
tab expansion and trimming keep a text clean.
-/

namespace TestWatch.Text

/-- A control sequence: numbers of at most four digits with semicolons between them, and a letter at
the end. The letter `m` sets a style. -/
structure Control where
  numbers : List (List Char)
  last : Char
  short : ∀ n ∈ numbers, n.length ≤ 4 ∧ n.all Char.isDigit = true
  ends : Scan.isLast last = true ∧ Terminal.isFinal last = true

def Control.text (k : Control) : List Char :=
  esc :: '[' :: (List.intercalate [';'] k.numbers ++ [k.last])

theorem mem_or_of_mem_intercalate {sep c : Char} {ls : List (List Char)}
    (h : c ∈ List.intercalate [sep] ls) : (∃ l ∈ ls, c ∈ l) ∨ c = sep := by
  induction ls with
  | nil => cases h
  | cons l ls ih =>
    cases ls with
    | nil => exact .inl ⟨l, by simp, by simpa using h⟩
    | cons m ms =>
      rw [List.intercalate_cons_cons] at h
      rcases List.mem_append.1 h with h | h
      · rcases List.mem_append.1 h with h | h
        · exact .inl ⟨l, by simp, h⟩
        · exact .inr (List.mem_singleton.1 h)
      · rcases ih h with ⟨k, hk, hc⟩ | rfl
        · exact .inl ⟨k, List.mem_cons_of_mem _ hk, hc⟩
        · exact .inr rfl

/-- What holds of a few characters holds of all that come before another one. -/
theorem forall_char_of_lt {P : Char → Prop} {b : Nat} (h : ∀ n < b, P (Char.ofNat n)) {c : Char}
    (hc : c.toNat < b) : P c := by
  have := h c.toNat hc
  rwa [Char.ofNat_toNat] at this

theorem toNat_of_isDigit {c : Char} (h : c.isDigit = true) : 0x30 ≤ c.toNat ∧ c.toNat ≤ 0x39 := by
  simp only [Char.isDigit, Bool.and_eq_true, decide_eq_true_eq, UInt32.le_iff_toNat_le] at h
  exact h

namespace Scan

/-- The state after many characters. -/
def run? (s : Scan) : List Char → Option Scan
  | [] => some s
  | c :: cs => (s.next? c).bind fun t => t.run? cs

theorem run?_append (s : Scan) (as bs : List Char) :
    s.run? (as ++ bs) = (s.run? as).bind fun t => t.run? bs := by
  induction as generalizing s with
  | nil => rfl
  | cons a as ih =>
    rw [List.cons_append, run?, run?]
    cases s.next? a with
    | none => rfl
    | some t => exact ih t

/-- Before the first digit of a number. -/
def IsFresh (s : Scan) : Prop := s = intro ∨ s = separator

/-- Where a number may end. -/
def IsOpen (s : Scan) : Prop :=
  s.IsFresh ∨ s = digit ∨ s = twoDigits ∨ s = threeDigits ∨ s = fourDigits

theorem next?_of_isDigit {c : Char} (h : c.isDigit = true) : intro.next? c = some digit ∧
    separator.next? c = some digit ∧ digit.next? c = some twoDigits ∧
      twoDigits.next? c = some threeDigits ∧ threeDigits.next? c = some fourDigits := by
  have other {d : Char} (hd : d.isDigit = false) : c ≠ d := by
    rintro rfl
    simp [h] at hd
  have mark : ¬ (c = '(' ∨ c = ')') ∧ c ≠ ';' ∧ ¬ (c = '[' ∨ c = '#' ∨ c = '?') := by
    simp [other (d := '(') rfl, other (d := ')') rfl, other (d := ';') rfl, other (d := '[') rfl,
      other (d := '#') rfl, other (d := '?') rfl]
  obtain ⟨bracket, semicolon, intro_mark⟩ := mark
  unfold next?
  simp only [if_neg bracket, if_neg semicolon, if_neg intro_mark, if_pos h, and_self]

theorem next?_semicolon {s : Scan} (h : s.IsOpen) : ∃ t, s.next? ';' = some t ∧ t.IsFresh := by
  rcases h with (rfl | rfl) | rfl | rfl | rfl | rfl
  · exact ⟨intro, by decide, .inl rfl⟩
  all_goals exact ⟨separator, by decide, .inr rfl⟩

theorem isLast_of_isDigit {c : Char} (h : c.isDigit = true) : isLast c = false := by
  have each : ∀ n < 0x3A, (Char.ofNat n).isDigit = true → isLast (Char.ofNat n) = false := by decide
  exact forall_char_of_lt (P := fun c => c.isDigit = true → isLast c = false) each
    (Nat.lt_succ_of_le (toNat_of_isDigit h).2) h

theorem next?_last {s : Scan} (h : s.IsOpen) {c : Char} (hc : isLast c = true) :
    s.next? c = some complete := by
  have other {d : Char} (hd : isLast d = false) : c ≠ d := by
    rintro rfl
    simp [hc] at hd
  have mark : ¬ (c = '(' ∨ c = ')') ∧ c ≠ ';' ∧ ¬ (c = '[' ∨ c = '#' ∨ c = '?') := by
    simp [other (d := '(') rfl, other (d := ')') rfl, other (d := ';') rfl, other (d := '[') rfl,
      other (d := '#') rfl, other (d := '?') rfl]
  have no_digit : ¬ c.isDigit = true := fun hd => by simp [isLast_of_isDigit hd] at hc
  obtain ⟨bracket, semicolon, intro_mark⟩ := mark
  unfold next?
  rw [if_neg bracket, if_neg semicolon, if_neg intro_mark, if_neg no_digit, if_pos hc]
  rcases h with (rfl | rfl) | rfl | rfl | rfl | rfl
  all_goals rfl

theorem next?_complete (c : Char) : complete.next? c = none := by
  unfold next?
  simp

/-- A number leaves the automaton where it may end. -/
theorem run?_number {s : Scan} (hs : s.IsFresh) {n : List Char} (length : n.length ≤ 4)
    (digits : ∀ d ∈ n, d.isDigit = true) : ∃ t, s.run? n = some t ∧ t.IsOpen := by
  have first {d : Char} (hd : d.isDigit = true) : s.next? d = some digit := by
    rcases hs with rfl | rfl
    · exact (next?_of_isDigit hd).1
    · exact (next?_of_isDigit hd).2.1
  match n with
  | [] => exact ⟨s, rfl, .inl hs⟩
  | [a] => exact ⟨digit, by simp [run?, first (digits a (by simp))], .inr (.inl rfl)⟩
  | [a, b] =>
    obtain ⟨_, _, second, _, _⟩ := next?_of_isDigit (digits b (by simp))
    exact ⟨twoDigits, by simp [run?, first (digits a (by simp)), second], by simp [IsOpen]⟩
  | [a, b, c] =>
    obtain ⟨_, _, second, _, _⟩ := next?_of_isDigit (digits b (by simp))
    obtain ⟨_, _, _, third, _⟩ := next?_of_isDigit (digits c (by simp))
    exact ⟨threeDigits, by simp [run?, first (digits a (by simp)), second, third],
      by simp [IsOpen]⟩
  | [a, b, c, d] =>
    obtain ⟨_, _, second, _, _⟩ := next?_of_isDigit (digits b (by simp))
    obtain ⟨_, _, _, third, _⟩ := next?_of_isDigit (digits c (by simp))
    obtain ⟨_, _, _, _, fourth⟩ := next?_of_isDigit (digits d (by simp))
    exact ⟨fourDigits, by simp [run?, first (digits a (by simp)), second, third, fourth],
      by simp [IsOpen]⟩
  | _ :: _ :: _ :: _ :: _ :: _ =>
    simp only [List.length_cons] at length
    omega

theorem run?_numbers {s : Scan} (hs : s.IsFresh) {ns : List (List Char)}
    (short : ∀ n ∈ ns, n.length ≤ 4 ∧ n.all Char.isDigit = true) :
    ∃ t, s.run? (List.intercalate [';'] ns) = some t ∧ t.IsOpen := by
  induction ns generalizing s with
  | nil => exact ⟨s, rfl, .inl hs⟩
  | cons n ns ih =>
    obtain ⟨length, digits⟩ := short n List.mem_cons_self
    obtain ⟨t, number, opened⟩ := run?_number hs length (List.all_eq_true.1 digits)
    cases ns with
    | nil => exact ⟨t, by simpa using number, opened⟩
    | cons m ms =>
      obtain ⟨u, semicolon, fresh⟩ := next?_semicolon opened
      obtain ⟨w, rest, hw⟩ := ih fresh fun k hk => short k (List.mem_cons_of_mem _ hk)
      refine ⟨w, ?_, hw⟩
      rw [List.intercalate_cons_cons, List.append_assoc, run?_append, number, Option.bind_some,
        List.singleton_append, run?, semicolon, Option.bind_some, rest]

theorem longest?_append {s t : Scan} {as : List Char} (h : s.run? as = some t) (n : Nat)
    (best : Option Nat) (cs : List Char) :
    ∃ best', longest? s n best (as ++ cs) = longest? t (n + as.length) best' cs := by
  induction as generalizing s n best with
  | nil =>
    cases h
    exact ⟨best, rfl⟩
  | cons a as ih =>
    rw [run?] at h
    obtain ⟨u, hu, ht⟩ := Option.bind_eq_some_iff.1 h
    obtain ⟨best', rest⟩ := ih ht (n + 1) (if u.accepts then some (n + 1) else best)
    refine ⟨best', ?_⟩
    rw [List.cons_append, longest?, hu]
    simpa [Nat.add_assoc, Nat.add_comm 1] using rest

/-- Nothing goes on after the last letter. -/
theorem longest?_last {s : Scan} {c : Char} (h : s.next? c = some complete) (n : Nat)
    (best : Option Nat) (cs : List Char) : longest? s n best (c :: cs) = some (n + 1) := by
  rw [longest?, h]
  cases cs with
  | nil => rfl
  | cons d ds => simp [longest?, next?_complete, accepts]

end Scan

namespace Terminal

/-- Within the parameters of a control sequence. -/
def InParameters (mode : Mode) : Prop := mode = .csiEntry ∨ mode = .csiParameter

theorem step_parameter {mode : Mode} (h : InParameters mode) {c : Char}
    (hc : isParameter c = true) : step mode c = (.csiParameter, []) := by
  have each : ∀ n < 0x3C, isParameter (Char.ofNat n) = true →
      step .csiEntry (Char.ofNat n) = (.csiParameter, []) ∧
        step .csiParameter (Char.ofNat n) = (.csiParameter, []) := by decide
  have low : c.toNat < 0x3C := by
    simp only [isParameter, within, Bool.and_eq_true, decide_eq_true_eq] at hc
    omega
  obtain ⟨first, later⟩ := forall_char_of_lt (P := fun c => isParameter c = true →
    step .csiEntry c = (.csiParameter, []) ∧ step .csiParameter c = (.csiParameter, [])) each low hc
  rcases h with rfl | rfl
  · exact first
  · exact later

theorem step_final {mode : Mode} (h : InParameters mode) {c : Char} (hc : isFinal c = true) :
    step mode c = (.ground, []) := by
  have no_newline : c ≠ '\n' := by
    rintro rfl
    exact absurd hc (by decide)
  rcases h with rfl | rfl
  all_goals simp [step, afterCsi, hc, control, no_newline]

/-- Parameters and the last letter of a control sequence print nothing. -/
theorem print_parameters {mode : Mode} (h : InParameters mode) {ps : List Char}
    (hp : ∀ c ∈ ps, isParameter c = true) {last : Char} (hl : isFinal last = true)
    (cs : List Char) : print mode (ps ++ last :: cs) = print .ground cs := by
  induction ps generalizing mode with
  | nil =>
    rw [List.nil_append, print, step_final h hl]
    rfl
  | cons p ps ih =>
    rw [List.cons_append, print, step_parameter h (hp p List.mem_cons_self)]
    exact ih (.inr rfl) fun c hc => hp c (List.mem_cons_of_mem _ hc)

end Terminal

namespace Control

variable (k : Control)

theorem isParameter_of_mem {c : Char} (h : c ∈ List.intercalate [';'] k.numbers) :
    Terminal.isParameter c = true := by
  have digit {n : List Char} (hn : n ∈ k.numbers) {d : Char} (hd : d ∈ n) :
      Terminal.isParameter d = true := by
    have := toNat_of_isDigit (List.all_eq_true.1 (k.short n hn).2 d hd)
    simp only [Terminal.isParameter, Terminal.within, Bool.and_eq_true, decide_eq_true_eq]
    omega
  rcases mem_or_of_mem_intercalate h with ⟨n, hn, hc⟩ | rfl
  · exact digit hn hc
  · rfl

/-- The whole sequence is kept when a text is cut, and nothing after it. -/
theorem sequenceLength?_text (cs : List Char) :
    sequenceLength? (k.text ++ cs) = some k.text.length := by
  obtain ⟨t, numbers, opened⟩ := Scan.run?_numbers (.inl rfl) k.short
  have start : Scan.run? .start ('[' :: List.intercalate [';'] k.numbers) = some t := by
    rw [Scan.run?]
    exact numbers
  obtain ⟨best, scan⟩ := Scan.longest?_append start 1 none (k.last :: cs)
  rw [Scan.longest?_last (Scan.next?_last opened k.ends.1)] at scan
  have text : k.text ++ cs =
      esc :: (('[' :: List.intercalate [';'] k.numbers) ++ k.last :: cs) := by
    simp [Control.text]
  have length : k.text.length = 1 + ('[' :: List.intercalate [';'] k.numbers).length + 1 := by
    simp only [Control.text, List.length_cons, List.length_append, List.length_nil]
    omega
  rw [text, length, ← scan]
  rfl

/-- The terminal prints nothing of the sequence. -/
theorem print_text (cs : List Char) :
    Terminal.print .ground (k.text ++ cs) = Terminal.print .ground cs := by
  have text : k.text ++ cs = [esc, '['] ++ (List.intercalate [';'] k.numbers ++ k.last :: cs) := by
    simp [Control.text]
  rw [text, Terminal.print_append]
  exact Terminal.print_parameters (.inl rfl) (fun _ hc => k.isParameter_of_mem hc) k.ends.2 cs

end Control

/-- The characters that begin no sequence. -/
def Plain (c : Char) : Prop := c ≠ esc ∧ c ≠ '\u009b'

instance (c : Char) : Decidable (Plain c) := inferInstanceAs (Decidable (_ ∧ _))

/-- A text of characters with `P` and complete control sequences. -/
inductive Clean (P : Char → Prop) : List Char → Prop
  | nil : Clean P []
  | char {c : Char} {cs : List Char} : P c → Clean P cs → Clean P (c :: cs)
  | control (k : Control) {cs : List Char} : Clean P cs → Clean P (k.text ++ cs)

theorem marked_cons_of_plain {c : Char} (h : Plain c) (cs : List Char) :
    marked (c :: cs) = (c, false) :: marked cs := by
  have none_here : sequenceLength? (c :: cs) = none := by
    unfold sequenceLength?
    split
    case h_5 => rfl
    case h_4 heq => exact absurd (List.cons.inj heq).1 h.2
    all_goals rename_i heq; exact absurd (List.cons.inj heq).1 h.1
  rw [marked, markedFrom, none_here]
  rfl

theorem markedFrom_append (xs cs : List Char) :
    markedFrom xs.length (xs ++ cs) = xs.map (fun c => (c, true)) ++ marked cs := by
  induction xs with
  | nil => rfl
  | cons x xs ih => simp [markedFrom, ih]

theorem marked_control (k : Control) (cs : List Char) :
    marked (k.text ++ cs) = k.text.map (fun c => (c, true)) ++ marked cs := by
  obtain ⟨xs, text⟩ : ∃ xs, k.text = esc :: xs := ⟨_, rfl⟩
  have sequence : sequenceLength? (esc :: (xs ++ cs)) = some (xs.length + 1) := by
    have whole := k.sequenceLength?_text cs
    rwa [text] at whole
  rw [text, List.cons_append, marked, markedFrom, sequence]
  simp [markedFrom_append]

theorem charWidth_of_control {c : Char} (h : c.toNat < 0x20 ∨ Terminal.within 0x80 0x9F c = true) :
    charWidth c = 0 := by
  simp only [Terminal.within, Bool.and_eq_true, decide_eq_true_eq] at h
  simp only [charWidth]
  repeat' split
  all_goals omega

/-- A character that begins no sequence counts its own columns. -/
theorem width_cons_of_plain {c : Char} (h : Plain c) (cs : List Char) :
    width (c :: cs) = charWidth c + width cs := by
  have printed : Terminal.step .ground c = (.ground, Terminal.control c) ∧ charWidth c = 0 ∨
      Terminal.step .ground c = (.ground, [c]) := by
    rw [Terminal.step, if_neg h.1]
    split
    · exact .inl ⟨rfl, charWidth_of_control ‹_›⟩
    · exact .inr rfl
  rw [width, visible, Terminal.print]
  rcases printed with ⟨step, no_width⟩ | step
  · have nothing : plainWidth (Terminal.control c) = 0 := by
      unfold Terminal.control
      split <;> rfl
    rw [step, plainWidth_append, nothing, no_width]
    rfl
  · rw [step, plainWidth_append, plainWidth_cons, plainWidth_nil, Nat.add_zero]
    rfl

/-- A control sequence takes no columns. -/
theorem width_control (k : Control) (cs : List Char) : width (k.text ++ cs) = width cs := by
  rw [width, visible, k.print_text]
  rfl

theorem Control.getLast?_text (k : Control) : k.text.getLast? = some k.last := by
  simp [Control.text, List.getLast?_cons]

theorem not_blank_of_isFinal {c : Char} (h : Terminal.isFinal c = true) : isBlank c = false := by
  simp only [Terminal.isFinal, Terminal.within, Bool.and_eq_true, decide_eq_true_eq] at h
  simp only [isBlank, Bool.or_eq_false_iff, Bool.and_eq_false_iff, beq_eq_false_iff_ne,
    decide_eq_false_iff_not]
  omega

namespace Clean

variable {P : Char → Prop} {cs : List Char}

theorem of_forall (h : ∀ c ∈ cs, P c) : Clean P cs := by
  induction cs with
  | nil => exact .nil
  | cons c cs ih =>
    exact .char (h c List.mem_cons_self) (ih fun d hd => h d (List.mem_cons_of_mem _ hd))

theorem of_all [DecidablePred P] (h : cs.all (fun c => decide (P c)) = true) : Clean P cs :=
  of_forall fun c hc => of_decide_eq_true (List.all_eq_true.1 h c hc)

theorem append {ds : List Char} (hc : Clean P cs) (hd : Clean P ds) : Clean P (cs ++ ds) := by
  induction hc with
  | nil => exact hd
  | char h _ ih => exact .char h ih
  | control k _ ih =>
    rw [List.append_assoc]
    exact .control k ih

theorem trimStart (h : Clean P cs) : Clean P (trimStart cs) := by
  induction h with
  | nil => exact .nil
  | @char c cs hc h ih =>
    rw [Text.trimStart, List.dropWhile_cons]
    split
    · exact ih
    · exact .char hc h
  | @control k cs h ih =>
    have begins : Text.trimStart (k.text ++ cs) = k.text ++ cs := rfl
    rw [begins]
    exact .control k h

/-- Blanks at the end are no part of a sequence. -/
theorem of_append_blank {as bs : List Char} (h : Clean P (as ++ bs)) (hb : ∀ c ∈ bs, isBlank c) :
    Clean P as := by
  generalize hs : as ++ bs = ds at h
  induction h generalizing as with
  | nil =>
    rw [(List.append_eq_nil_iff.1 hs).1]
    exact .nil
  | @char c cs hc _ ih =>
    cases as with
    | nil => exact .nil
    | cons a as =>
      obtain ⟨rfl, rest⟩ := List.cons.inj hs
      exact .char hc (ih rest)
  | @control k cs _ ih =>
    rcases List.append_eq_append_iff.1 hs with ⟨xs, hk, rfl⟩ | ⟨xs, rfl, hcs⟩
    · have none_cut : xs = [] := by
        by_contra some_cut
        have last : xs.getLast? = some k.last := by
          have whole := k.getLast?_text
          rwa [hk, List.getLast?_append_of_ne_nil _ some_cut] at whole
        have blank := hb k.last (List.mem_append_left _ (List.mem_of_getLast? last))
        exact absurd blank (by simp [not_blank_of_isFinal k.ends.2])
      rw [none_cut, List.append_nil] at hk
      have alone := Clean.control (P := P) k .nil
      rwa [List.append_nil, hk] at alone
    · exact .control k (ih hcs.symm)

theorem trimEnd (h : Clean P cs) : Clean P (trimEnd cs) := by
  obtain ⟨tail, blank, whole⟩ := dropEndWhile_append isBlank cs
  rw [← whole] at h
  exact of_append_blank h blank

end Clean

theorem cutFrom_control (k : Control) (limit column : Nat) (within : Bool)
    (ms : List (Char × Bool)) :
    cutFrom limit column within (k.text.map (fun c => (c, true)) ++ ms) =
      k.text ++ cutFrom limit column (column < limit) ms := by
  have rest (xs : List Char) : cutFrom limit column (column < limit)
      (xs.map (fun c => (c, true)) ++ ms) = xs ++ cutFrom limit column (column < limit) ms := by
    induction xs with
    | nil => rfl
    | cons x xs ih => simp [cutFrom, ih]
  obtain ⟨xs, text⟩ : ∃ xs, k.text = esc :: xs := ⟨_, rfl⟩
  rw [text, List.map_cons, List.cons_append, cutFrom, rest, List.cons_append]

theorem expandFrom_control (k : Control) (column : Nat) (ms : List (Char × Bool)) :
    expandFrom column (k.text.map (fun c => (c, true)) ++ ms) =
      k.text ++ expandFrom column ms := by
  induction k.text with
  | nil => rfl
  | cons x xs ih => simp [expandFrom, ih]

namespace Clean

variable {P : Char → Prop} {cs : List Char} (plain : ∀ c, P c → Plain c)
include plain

/-- What is left of a clean text at a column fits. -/
theorem width_cutFrom_le (h : Clean P cs) (limit column : Nat) (within : Bool) :
    width (cutFrom limit column within (marked cs)) ≤ limit - column := by
  induction h generalizing column within with
  | nil => exact Nat.zero_le _
  | @char c cs hc _ ih =>
    rw [marked_cons_of_plain (plain c hc), cutFrom]
    split
    · by_cases fits : column + charWidth c ≤ limit
      · have rest := ih (column + charWidth c) true
        simp only [if_pos fits]
        rw [width_cons_of_plain (plain c hc)]
        omega
      · have rest := ih (column + charWidth c) false
        simp only [if_neg fits]
        omega
    · exact ih column false
  | @control k cs _ ih =>
    rw [marked_control, cutFrom_control, width_control]
    exact ih column (column < limit)

theorem width_cut_le (h : Clean P cs) (limit : Nat) : width (cut limit cs) ≤ limit :=
  h.width_cutFrom_le plain limit 0 _

theorem expandFrom (h : Clean P cs) (blank : P ' ') (column : Nat) :
    Clean P (expandFrom column (marked cs)) := by
  induction h generalizing column with
  | nil => exact .nil
  | @char c cs hc _ ih =>
    rw [marked_cons_of_plain (plain c hc), Text.expandFrom]
    split
    · refine append (of_forall fun d hd => ?_) (ih _)
      rw [List.eq_of_mem_replicate hd]
      exact blank
    · exact .char hc (ih _)
  | @control k cs _ ih =>
    rw [marked_control, expandFrom_control]
    exact .control k (ih _)

theorem expandTabs (h : Clean P cs) (blank : P ' ') : Clean P (expandTabs cs) :=
  h.expandFrom plain blank 0

end Clean

end TestWatch.Text
