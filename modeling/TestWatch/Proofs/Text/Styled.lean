import TestWatch.Proofs.Text.Tint

/-!
# Cutting styled texts

A styled text holds single characters and complete style sequences. Cut at a column it keeps every
sequence, and of the printable characters a prefix: as much as fits. A character of two columns that
would go over the edge is dropped whole, and characters without a width may be dropped at the edge.
-/

namespace TestWatch.Text

/-- A text of characters with `P` and complete style sequences. -/
inductive Styled (P : Char → Prop) : List Char → Prop
  | nil : Styled P []
  | char {c : Char} {cs : List Char} : P c → Styled P cs → Styled P (c :: cs)
  | style {k : Control} {cs : List Char} : k.IsStyle → Styled P cs → Styled P (k.text ++ cs)

/-- The style sequences of a text; the next `left` characters belong to one that was found. -/
def stylesFrom (left : Nat) : List Char → List (List Char)
  | [] => []
  | c :: cs =>
    match left with
    | n + 1 => stylesFrom n cs
    | 0 =>
      match styleLength? (c :: cs) with
      | some (n + 1) => (c :: cs.take n) :: stylesFrom n cs
      | _ => stylesFrom 0 cs

def styles (cs : List Char) : List (List Char) := stylesFrom 0 cs

theorem stylesFrom_append (xs cs : List Char) : stylesFrom xs.length (xs ++ cs) = styles cs := by
  induction xs with
  | nil => rfl
  | cons x xs ih => simp [stylesFrom, ih]

theorem styles_cons {c : Char} (h : c ≠ esc) (cs : List Char) : styles (c :: cs) = styles cs := by
  rw [styles, stylesFrom, styleLength?_cons h]
  rfl

theorem Control.styles_text {k : Control} (h : k.IsStyle) (cs : List Char) :
    styles (k.text ++ cs) = k.text :: styles cs := by
  obtain ⟨xs, text⟩ : ∃ xs, k.text = esc :: xs := ⟨_, rfl⟩
  have sequence := styleLength?_text h cs
  rw [text, List.cons_append, List.length_cons] at sequence
  rw [text, List.cons_append, styles, stylesFrom, sequence]
  simp [stylesFrom_append]

theorem visible_cons {c : Char} (h : Printable c) (cs : List Char) :
    visible (c :: cs) = c :: visible cs := by
  have printed : ¬ (c.toNat < 0x20 ∨ Terminal.within 0x80 0x9F c = true) := by
    simp only [Printable, Terminal.within, Bool.and_eq_false_iff, Bool.and_eq_true,
      decide_eq_false_iff_not, decide_eq_true_eq] at h ⊢
    omega
  rw [visible, Terminal.print, Terminal.step, if_neg h.plain.1, if_neg printed]
  rfl

theorem visible_control (k : Control) (cs : List Char) : visible (k.text ++ cs) = visible cs :=
  k.print_text cs

theorem visible_of_printed {cs : List Char} (h : Printed cs) : visible cs = cs := by
  induction cs with
  | nil => rfl
  | cons c cs ih =>
    rw [printed_cons] at h
    rw [visible_cons h.1, ih h.2]

/-- Of a tinted text the tint is not printed. -/
theorem Tinted.visible {ts cs : List Char} (h : Tinted ts cs) (printed : Printed cs) :
    visible ts = cs := by
  induction h with
  | nil => rfl
  | char _ _ ih =>
    rw [printed_cons] at printed
    rw [visible_cons printed.1, ih printed.2]
  | style _ _ ih => rw [visible_control, ih printed]

theorem Bare.styles {cs : List Char} (h : Bare cs) : styles cs = [] := by
  induction cs with
  | nil => rfl
  | cons c cs ih =>
    rw [bare_cons] at h
    rw [styles_cons h.1.1, ih h.2]

namespace Styled

variable {P : Char → Prop} {as bs cs : List Char}

theorem of_forall (h : ∀ c ∈ cs, P c) : Styled P cs := by
  induction cs with
  | nil => exact .nil
  | cons c cs ih =>
    rw [List.forall_mem_cons] at h
    exact .char h.1 (ih h.2)

theorem append (ha : Styled P as) (hb : Styled P bs) : Styled P (as ++ bs) := by
  induction ha with
  | nil => exact hb
  | char hc _ ih => exact .char hc ih
  | style hk _ ih =>
    rw [List.append_assoc]
    exact .style hk ih

theorem text {k : Control} (h : k.IsStyle) : Styled P k.text := by
  have alone : Styled P (k.text ++ []) := .style h .nil
  rwa [List.append_nil] at alone

theorem reset : Styled P reset := by
  obtain ⟨k, style, same⟩ := exists_control_reset
  rw [same]
  exact .text style

theorem styles_append (ha : Styled Printable as) (bs : List Char) :
    styles (as ++ bs) = styles as ++ styles bs := by
  induction ha with
  | nil => rfl
  | char hc _ ih => rw [List.cons_append, styles_cons hc.plain.1, styles_cons hc.plain.1, ih]
  | style hk _ ih =>
    rw [List.append_assoc, Control.styles_text hk, Control.styles_text hk, ih, List.cons_append]

theorem visible_append (ha : Styled Printable as) (bs : List Char) :
    visible (as ++ bs) = visible as ++ visible bs := by
  induction ha with
  | nil => rfl
  | char hc _ ih => rw [List.cons_append, visible_cons hc, visible_cons hc, ih, List.cons_append]
  | @style k _ _ _ ih => rw [List.append_assoc, visible_control, visible_control, ih]

theorem width_append (ha : Styled Printable as) (bs : List Char) :
    width (as ++ bs) = width as + width bs := by
  rw [width, ha.visible_append, plainWidth_append]
  rfl

theorem tinted (plain : ∀ c, P c → Plain c) (h : Styled P cs) : Tinted cs (unstyled cs) := by
  induction h with
  | nil => exact .nil
  | @char c cs hc _ ih =>
    rw [unstyled_cons (plain c hc).1]
    exact .char (plain c hc) ih
  | @style k cs hk _ ih =>
    rw [Control.unstyled_text hk]
    exact .style hk ih

theorem forall_mem_unstyled (plain : ∀ c, P c → Plain c) (h : Styled P cs) :
    ∀ c ∈ unstyled cs, P c := by
  induction h with
  | nil => exact List.forall_mem_nil _
  | @char c cs hc _ ih =>
    rw [unstyled_cons (plain c hc).1]
    exact List.forall_mem_cons.2 ⟨hc, ih⟩
  | @style k cs hk _ ih =>
    rw [Control.unstyled_text hk]
    exact ih

/-- What is printed is what is left without the style sequences. -/
theorem visible_eq_unstyled (h : Styled Printable cs) : visible cs = unstyled cs :=
  (h.tinted fun _ hc => hc.plain).visible (h.forall_mem_unstyled fun _ hc => hc.plain)

end Styled

theorem visible_reset : visible reset = [] := by decide

theorem styles_reset : styles reset = [reset] := by decide

theorem styled_blanks (n : Nat) : Styled Printable (List.replicate n ' ') ∧
    visible (List.replicate n ' ') = List.replicate n ' ' ∧ styles (List.replicate n ' ') = [] := by
  have printed := printed_replicate (by decide : Printable ' ') n
  exact ⟨.of_forall printed, visible_of_printed printed, printed.bare.styles⟩

theorem plainWidth_blanks (n : Nat) : plainWidth (List.replicate n ' ') = n := by
  induction n with
  | zero => rfl
  | succ n ih => rw [List.replicate_succ, plainWidth_cons, ih, charWidth_space, Nat.add_comm]

/-- Of a text without sequences a prefix is shown that fits, and the next character that takes a
column does not fit any more. -/
structure Fills (budget : Nat) (text shown : List Char) : Prop where
  front : shown <+: text
  fits : plainWidth shown ≤ budget
  full : ∀ skipped c rest, text = shown ++ skipped ++ c :: rest → plainWidth skipped = 0 →
    0 < charWidth c → budget < plainWidth shown + charWidth c

namespace Fills

variable {budget : Nat} {c : Char} {text shown : List Char}

theorem all (h : plainWidth text ≤ budget) : Fills budget text text where
  front := List.prefix_rfl
  fits := h
  full := by
    intro skipped c rest whole
    have length := congrArg List.length whole
    simp at length

/-- Without room nothing is shown. -/
theorem none (text : List Char) : Fills 0 text [] where
  front := List.nil_prefix
  fits := Nat.le_refl 0
  full := by
    intro _ _ _ _ _ takes
    simpa using takes

/-- A character that does not fit ends what is shown. -/
theorem wide (h : budget < charWidth c) (text : List Char) : Fills budget (c :: text) [] where
  front := List.nil_prefix
  fits := Nat.zero_le _
  full := by
    intro skipped d rest whole no_width _
    cases skipped with
    | nil =>
      obtain rfl : c = d := (List.cons.inj whole).1
      simpa using h
    | cons x xs =>
      obtain rfl : c = x := (List.cons.inj whole).1
      rw [plainWidth_cons] at no_width
      omega

theorem cons (fits : charWidth c ≤ budget) (h : Fills (budget - charWidth c) text shown) :
    Fills budget (c :: text) (c :: shown) where
  front := List.cons_prefix_cons.2 ⟨rfl, h.front⟩
  fits := by
    have := h.fits
    rw [plainWidth_cons]
    omega
  full := by
    intro skipped d rest whole no_width takes
    have := h.full skipped d rest (List.cons.inj whole).2 no_width takes
    rw [plainWidth_cons]
    omega

end Fills

namespace Styled

variable {cs : List Char}

/-- All sequences are kept, wherever the text is cut. -/
theorem styles_cutFrom (h : Styled Printable cs) (limit column : Nat) (within : Bool) :
    Styled Printable (cutFrom limit column within (marked cs)) ∧
      styles (cutFrom limit column within (marked cs)) = styles cs := by
  induction h generalizing column within with
  | nil => exact ⟨.nil, rfl⟩
  | @char c cs hc _ ih =>
    rw [marked_cons_of_plain hc.plain, styles_cons hc.plain.1, Text.cutFrom]
    split
    · dsimp only
      split
      · obtain ⟨styled, kept⟩ := ih (column + charWidth c) true
        exact ⟨.char hc styled, by rw [styles_cons hc.plain.1, kept]⟩
      · exact ih ..
    · exact ih ..
  | @style k cs hk _ ih =>
    rw [marked_control, cutFrom_control, Control.styles_text hk, Control.styles_text hk]
    obtain ⟨styled, kept⟩ := ih column (column < limit)
    exact ⟨.style hk styled, by rw [kept]⟩

/-- Beyond the limit nothing is visible. -/
theorem visible_cutFrom_beyond (h : Styled Printable cs) {limit column : Nat}
    (beyond : limit ≤ column) : visible (cutFrom limit column false (marked cs)) = [] := by
  induction h with
  | nil => rfl
  | char hc _ ih =>
    rw [marked_cons_of_plain hc.plain, Text.cutFrom]
    exact ih
  | @style k cs _ _ ih =>
    have not_within : decide (column < limit) = false := by simpa using beyond
    rw [marked_control, cutFrom_control, visible_control, not_within]
    exact ih

/-- Up to the limit the cut fills what is left of it. -/
theorem fills_cutFrom (h : Styled Printable cs) {limit column : Nat} (inside : column ≤ limit) :
    Fills (limit - column) (visible cs) (visible (cutFrom limit column true (marked cs))) := by
  induction h generalizing column with
  | nil => exact .all (Nat.zero_le _)
  | @char c cs hc rest ih =>
    rw [marked_cons_of_plain hc.plain, visible_cons hc, Text.cutFrom, if_pos rfl]
    by_cases fits : column + charWidth c ≤ limit
    · simp only [if_pos fits]
      rw [visible_cons hc]
      refine .cons (by omega) ?_
      rw [Nat.sub_sub]
      exact ih fits
    · simp only [if_neg fits]
      rw [rest.visible_cutFrom_beyond (by omega)]
      exact .wide (by omega) _
  | @style k cs _ rest ih =>
    rw [marked_control, cutFrom_control, visible_control, visible_control]
    by_cases room : column < limit
    · rw [decide_eq_true room]
      exact ih inside
    · rw [decide_eq_false room, rest.visible_cutFrom_beyond (by omega),
        Nat.sub_eq_zero_of_le (by omega)]
      exact .none _

theorem fills_cut (h : Styled Printable cs) (limit : Nat) :
    Fills limit (visible cs) (visible (cut limit cs)) := by
  unfold Text.cut
  by_cases room : 0 < limit
  · rw [decide_eq_true room]
    exact h.fills_cutFrom (Nat.zero_le _)
  · obtain rfl : limit = 0 := by omega
    rw [decide_eq_false room, h.visible_cutFrom_beyond (Nat.le_refl 0)]
    exact .none _

end Styled

end TestWatch.Text
