import TestWatch.Proofs.Frame.Rows
import TestWatch.Proofs.Text.Styled

/-!
# Aligned lines

The right half of an aligned line stands at the right edge. Where it does not fit, the label before
it is cut, so the line is wider than the frame only if there is no room for any label. Styles are
all kept, and none goes on beyond the end of the line.
-/

namespace TestWatch

open Text (Fills Printable Printed Styled styles visible plainWidth plainWidth_blanks styled_blanks)

def IsClosing (added : List (List Char)) : Prop := added = [] ∨ added = [Text.reset]

section Parts

variable {cs : List Char} (h : Styled Printable cs)
include h

/-- A label keeps its styles. It takes what there is for it, and all of it is shown if that is
enough. -/
theorem fills_fitLabel (budget : Nat) :
    let shown := fitLabel budget cs
    Styled Printable shown ∧ styles shown = styles cs ∧ Fills budget (visible cs) (visible shown) ∧
      (Text.width cs ≤ budget → visible shown = visible cs) := by
  intro shown
  obtain ⟨styled, kept⟩ := h.styles_cutFrom budget 0 (0 < budget)
  by_cases wide : budget < Text.width cs
  · have cut : shown = Text.cut budget cs := if_pos wide
    rw [cut]
    exact ⟨styled, kept, h.fills_cut budget, fun fits => absurd wide (Nat.not_lt.2 fits)⟩
  · have whole : shown = cs := if_neg wide
    rw [whole]
    exact ⟨h, rfl, .all (Nat.le_of_not_lt wide), fun _ => rfl⟩

/-- Whether styles are ended or not, the text shows the same. -/
theorem styled_of_closing {line : List Char} (closed : line = cs ∨ line = cs ++ Text.reset) :
    Styled Printable line ∧ visible line = visible cs ∧
      ∃ added, IsClosing added ∧ styles line = styles cs ++ added := by
  rcases closed with rfl | rfl
  · exact ⟨h, rfl, [], .inl rfl, (List.append_nil _).symm⟩
  · refine ⟨h.append .reset, ?_, [Text.reset], .inr rfl, ?_⟩
    · rw [h.visible_append, Text.visible_reset, List.append_nil]
    · rw [h.styles_append, Text.styles_reset]

end Parts

theorem ensureReset_cases (cs : List Char) :
    Text.ensureReset cs = cs ∨ Text.ensureReset cs = cs ++ Text.reset :=
  (ite_eq_or_eq _ _ _).symm

theorem exists_joinHalves_eq (left right : List Char) (blanks : Nat) :
    ∃ closed, (closed = left ∨ closed = left ++ Text.reset) ∧
      joinHalves left right blanks =
        Text.ensureReset (closed ++ (List.replicate (blanks + 2) ' ' ++ right)) := by
  refine ⟨if left.contains Text.esc then left ++ Text.reset else left,
    (ite_eq_or_eq _ _ _).symm, ?_⟩
  have gap : List.replicate (blanks + 2) ' ' = List.replicate blanks ' ' ++ Columns.gutter :=
    List.replicate_append_replicate.symm
  rw [gap, ← List.append_assoc, ← List.append_assoc]
  rfl

theorem styled_joinHalves {left right : List Char} (hleft : Styled Printable left)
    (hright : Styled Printable right) (blanks : Nat) :
    let line := joinHalves left right blanks
    Styled Printable line ∧
      visible line = visible left ++ List.replicate (blanks + 2) ' ' ++ visible right ∧
      ∃ between last, IsClosing between ∧ IsClosing last ∧
        styles line = styles left ++ between ++ styles right ++ last := by
  intro line
  obtain ⟨_, closed, made⟩ := exists_joinHalves_eq left right blanks
  obtain ⟨left_styled, left_visible, between, is_between, left_styles⟩ :=
    styled_of_closing hleft closed
  obtain ⟨gap_styled, gap_visible, gap_styles⟩ := styled_blanks (blanks + 2)
  obtain ⟨styled, same, last, is_last, line_styles⟩ :=
    styled_of_closing (left_styled.append (gap_styled.append hright)) (ensureReset_cases _)
  rw [← made] at styled same line_styles
  refine ⟨styled, ?_, between, last, is_between, is_last, ?_⟩
  · rw [same, left_styled.visible_append, gap_styled.visible_append, left_visible, gap_visible,
      List.append_assoc]
  · rw [line_styles, left_styled.styles_append, gap_styled.styles_append, left_styles, gap_styles,
      List.nil_append]

/-- The right half of an aligned line stands at the right edge, two columns or more after the
label, or after the lead if both halves do not fit. The label is shown as far as it fits. All style
sequences are kept, and at most a reset is added after each half; no style goes on beyond the line.
A line without a right half is cut likewise. -/
theorem aligned_lines_fill {lead label right : List Char} (hlead : Styled Printable lead)
    (hlabel : Styled Printable label) (hright : Styled Printable right) (width : Nat) :
    (∃ line, alignLine? lead label right width = some line ∧
      let budget := width - Text.width right - 2 - Text.width lead
      Text.width line = max width (Text.width lead + 2 + Text.width right) ∧
      (∃ shown blanks,
        visible line = visible lead ++ shown ++ List.replicate (blanks + 2) ' ' ++ visible right ∧
          Fills budget (visible label) shown ∧
          (Text.width label ≤ budget → shown = visible label)) ∧
      (∃ between last, IsClosing between ∧ IsClosing last ∧
        styles line = styles lead ++ styles label ++ between ++ styles right ++ last) ∧
      Styled Printable line ∧ ClosesStyles line) ∧
    let line := fitLine label width
    Text.width line ≤ width ∧ Fills width (visible label) (visible line) ∧
      (Text.width label ≤ width → visible line = visible label) ∧
      (∃ last, IsClosing last ∧ styles line = styles label ++ last) ∧
      Styled Printable line ∧ ClosesStyles line := by
  constructor
  · let budget := labelBudget lead right width
    obtain ⟨shown_styled, shown_styles, fills, all⟩ := fills_fitLabel hlabel budget
    have fits : Text.width (fitLabel budget label) ≤ budget := fills.fits
    refine ⟨_, if_pos fits, ?_⟩
    obtain ⟨styled, shows, between, last, is_between, is_last, line_styles⟩ :=
      styled_joinHalves (hlead.append shown_styled) hright
        (budget - Text.width (fitLabel budget label))
    rw [hlead.visible_append] at shows
    rw [hlead.styles_append, shown_styles] at line_styles
    refine ⟨?_, ⟨_, _, shows, fills, all⟩, ⟨between, last, is_between, is_last, line_styles⟩, styled,
      closesStyles_ensureReset _⟩
    rw [Text.width, shows]
    simp only [Text.plainWidth_append, plainWidth_blanks]
    change Text.width lead + Text.width (fitLabel budget label) +
      (budget - Text.width (fitLabel budget label) + 2) + Text.width right = _
    have left_over : budget = width - Text.width right - 2 - Text.width lead := rfl
    omega
  · intro line
    obtain ⟨styled, kept, fills, all⟩ := fills_fitLabel hlabel width
    obtain ⟨closed, same, last, is_last, line_styles⟩ :=
      styled_of_closing styled (ensureReset_cases _)
    have as_wide : Text.width line = Text.width (fitLabel width label) := congrArg plainWidth same
    refine ⟨as_wide ▸ fills.fits, same ▸ fills, fun fits => same.trans (all fits),
      ⟨last, is_last, ?_⟩, closed, closesStyles_ensureReset _⟩
    rw [← kept]
    exact line_styles

/-- A red label of two wide characters, with room for three columns: one of the characters is
shown. -/
theorem aligned_lines_fill_wide_character :
    let red : Text.Control := ⟨[['3', '1']], 'm', by decide, by decide⟩
    let label := red.text ++ (['世', '界'] ++ Text.reset)
    Styled Printable ['+', ' '] ∧ Styled Printable label ∧ Styled Printable ['1', 's'] ∧
      ∃ line, alignLine? ['+', ' '] label ['1', 's'] 9 = some line ∧ Text.width line = 9 ∧
        (∃ shown blanks, visible line = ['+', ' '] ++ shown ++ List.replicate (blanks + 2) ' ' ++
          ['1', 's'] ∧ Fills 3 ['世', '界'] shown) ∧
        visible line = ['+', ' ', '世', ' ', ' ', ' ', '1', 's'] ∧
        styles line = [red.text, Text.reset, Text.reset, Text.reset] := by
  intro red label
  have hlead : Styled Printable ['+', ' '] := .of_forall (by decide : Printed _)
  have hwide : Styled Printable ['世', '界'] := .of_forall (by decide : Printed _)
  have hlabel : Styled Printable label := .style rfl (hwide.append .reset)
  have hright : Styled Printable ['1', 's'] := .of_forall (by decide : Printed _)
  obtain ⟨⟨line, written, full, ⟨shown, blanks, shows, fills, _⟩, _⟩, _⟩ :=
    aligned_lines_fill hlead hlabel hright 9
  have parts : (alignLine? ['+', ' '] label ['1', 's'] 9).map (fun l => (visible l, styles l)) =
      some (['+', ' ', '世', ' ', ' ', ' ', '1', 's'],
        [red.text, Text.reset, Text.reset, Text.reset]) := by decide +kernel
  rw [written] at parts
  obtain ⟨is_visible, is_styles⟩ := Prod.mk.inj (Option.some.inj parts)
  exact ⟨hlead, hlabel, hright, line, written, full, ⟨shown, blanks, shows, fills⟩, is_visible,
    is_styles⟩

end TestWatch
