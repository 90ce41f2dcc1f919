import TestWatch.Proofs.Text.Styled

/-!
# Tab stops

Tabs are expanded to blanks, so that what follows a tab begins at a tab stop. Stops are eight
columns apart, counted from the start of the text as a terminal counts them: style sequences take
no column, and a wide character takes two. Nothing but the tabs is changed.
-/

namespace TestWatch.Text

def PrintableOrTab (c : Char) : Prop := Printable c ∨ c = '\t'

theorem PrintableOrTab.plain {c : Char} (h : PrintableOrTab c) : Plain c := by
  rcases h with printable | rfl
  · exact printable.plain
  · decide

/-- The second text is the first one with each tab replaced by one to eight blanks, which end at a
multiple of eight columns from the start of the text. All else stands in it as in the first. -/
inductive Expands : List Char → List Char → Prop
  | nil : Expands [] []
  | char {c : Char} {cs shown : List Char} :
      Printable c → Expands cs shown → Expands (cs ++ [c]) (shown ++ [c])
  | tab {n : Nat} {cs shown : List Char} :
      1 ≤ n → n ≤ 8 → 8 ∣ width shown + n → Expands cs shown →
        Expands (cs ++ ['\t']) (shown ++ List.replicate n ' ')
  | style {k : Control} {cs shown : List Char} :
      k.IsStyle → Expands cs shown → Expands (cs ++ k.text) (shown ++ k.text)

/-- From any column, one to eight blanks lead to the next stop. -/
theorem blanks_to_stop (column : Nat) :
    let n := tabWidth - column % tabWidth
    1 ≤ n ∧ n ≤ 8 ∧ 8 ∣ column + n := by
  simp only [tabWidth]
  omega

theorem expandFrom_char {c : Char} (h : Printable c) (column : Nat) (cs : List Char) :
    expandFrom column (marked (c :: cs)) =
      c :: expandFrom (column + charWidth c) (marked cs) := by
  rw [marked_cons_of_plain h.plain, expandFrom, if_neg (h.ne (by decide))]

theorem expandFrom_tab (column : Nat) (cs : List Char) :
    let n := tabWidth - column % tabWidth
    expandFrom column (marked ('\t' :: cs)) =
      List.replicate n ' ' ++ expandFrom (column + n) (marked cs) := by
  rw [marked_cons_of_plain (by decide), expandFrom, if_pos rfl]

theorem width_printable {c : Char} (h : Printable c) : width [c] = charWidth c := by
  rw [width_cons_of_plain h.plain, width_nil, Nat.add_zero]

theorem width_blanks (n : Nat) : width (List.replicate n ' ') = n := by
  rw [width, (styled_blanks n).2.1, plainWidth_blanks]

theorem Expands.styled {cs shown : List Char} (h : Expands cs shown) : Styled Printable shown := by
  induction h with
  | nil => exact .nil
  | char hc _ ih => exact ih.append (.char hc .nil)
  | tab _ _ _ _ ih => exact ih.append (styled_blanks _).1
  | style hk _ ih => exact ih.append (.text hk)

/-- The column that is carried along is the width of what has been written, so each tab meets the
stop that a reader of the whole text sees. -/
theorem Expands.append {as shown cs : List Char} (h : Expands as shown)
    (hc : Styled PrintableOrTab cs) :
    Expands (as ++ cs) (shown ++ expandFrom (width shown) (marked cs)) := by
  -- Every case moves one piece from the text that is still to come to the text that is behind.
  induction hc generalizing as shown with
  | nil => simpa [marked, markedFrom, expandFrom] using h
  | @char c cs hc _ ih =>
    rcases hc with printable | rfl
    · have next := ih (h.char printable)
      rw [h.styled.width_append, width_printable printable] at next
      rw [expandFrom_char printable]
      simpa using next
    · obtain ⟨least, most, stop⟩ := blanks_to_stop (width shown)
      have next := ih (h.tab least most stop)
      rw [h.styled.width_append, width_blanks] at next
      rw [expandFrom_tab]
      simpa using next
  | @style k cs hk _ ih =>
    have next := ih (h.style hk)
    have no_width : width k.text = 0 := by simpa using width_control k []
    rw [h.styled.width_append, no_width, Nat.add_zero] at next
    rw [marked_control, expandFrom_control]
    simpa using next

theorem Styled.styles_expandFrom {cs : List Char} (h : Styled PrintableOrTab cs) (column : Nat) :
    styles (expandFrom column (marked cs)) = styles cs := by
  induction h generalizing column with
  | nil => rfl
  | @char c cs hc _ ih =>
    rcases hc with printable | rfl
    · rw [expandFrom_char printable, styles_cons printable.plain.1, styles_cons printable.plain.1,
        ih]
    · obtain ⟨styled, _, no_styles⟩ := styled_blanks (tabWidth - column % tabWidth)
      rw [expandFrom_tab, styled.styles_append, no_styles, List.nil_append, ih,
        styles_cons (by decide)]
  | style hk _ ih =>
    rw [marked_control, expandFrom_control, Control.styles_text hk, Control.styles_text hk, ih]

theorem expandFrom_of_notMem {ms : List (Char × Bool)} (h : '\t' ∉ ms.map Prod.fst)
    (column : Nat) : expandFrom column ms = ms.map Prod.fst := by
  induction ms generalizing column with
  | nil => rfl
  | cons m ms ih =>
    rw [List.map_cons, List.mem_cons, not_or] at h
    obtain ⟨no_tab, rest⟩ := h
    obtain ⟨c, _ | _⟩ := m
    · rw [expandFrom, if_neg (Ne.symm no_tab), ih rest, List.map_cons]
    · rw [expandFrom, ih rest, List.map_cons]

/-- A text without tabs stays as it is, whatever sequences it holds. -/
theorem expandTabs_of_notMem {cs : List Char} (h : '\t' ∉ cs) : expandTabs cs = cs := by
  have same : (marked cs).map Prod.fst = cs := map_fst_markedFrom 0 cs
  rw [expandTabs, expandFrom_of_notMem (same.symm ▸ h), same]

/-- Neither a printable character nor a part of a style sequence is a tab. -/
theorem Styled.tab_notMem {cs : List Char} (h : Styled Printable cs) : '\t' ∉ cs := by
  induction h with
  | nil => exact List.not_mem_nil
  | @char c cs hc _ ih =>
    rw [List.mem_cons, not_or]
    exact ⟨(hc.ne (by decide)).symm, ih⟩
  | @style k cs hk _ ih =>
    have none_within : '\t' ∉ List.intercalate [';'] k.numbers := fun within =>
      absurd (k.isParameter_of_mem within) (by decide)
    rw [Control.text, hk]
    simp [none_within, ih, esc]

theorem expands_expandTabs {cs : List Char} (h : Styled PrintableOrTab cs) :
    Expands cs (expandTabs cs) := Expands.nil.append h

/-- After expansion no tab is left, and each tab has become one to eight blanks, up to the next
multiple of eight columns; all style sequences are kept, in their order. The same holds of what is
visible, for sequences take no columns: deleting them before tabs are expanded or after gives the
same text, the one that a terminal shows. Expanding once more changes nothing. -/
theorem tabs_end_at_stops {cs : List Char} (h : Styled PrintableOrTab cs) :
    let shown := expandTabs cs
    '\t' ∉ shown ∧ styles shown = styles cs ∧ Expands cs shown ∧
      Expands (unstyled cs) (visible shown) ∧ visible shown = unstyled shown ∧
      unstyled shown = expandTabs (unstyled cs) ∧ expandTabs shown = shown := by
  intro shown
  have expands : Expands cs shown := expands_expandTabs h
  have no_tab : '\t' ∉ shown := expands.styled.tab_notMem
  have printed : visible shown = unstyled shown := expands.styled.visible_eq_unstyled
  have commutes : unstyled shown = expandTabs (unstyled cs) :=
    (h.tinted fun _ hc => hc.plain).expandTabs.unstyled
  have bare : Styled PrintableOrTab (unstyled cs) :=
    .of_forall (h.forall_mem_unstyled fun _ hc => hc.plain)
  refine ⟨no_tab, h.styles_expandFrom 0, expands, ?_, printed, commutes,
    expandTabs_of_notMem no_tab⟩
  rw [printed, commutes]
  exact expands_expandTabs bare

/-- A red label of three columns, one of its characters wide, and two tabs: the first one ends at
column 8, and the second one, which begins there, at column 16. -/
theorem tabs_end_at_stops_wide_character :
    let red : Control := ⟨[['3', '1']], 'm', by decide, by decide⟩
    let text := red.text ++ (['a', '世'] ++ (reset ++ ['\t', '\t', 'b']))
    let shown := red.text ++ (['a', '世'] ++ (reset ++ (List.replicate 13 ' ' ++ ['b'])))
    Styled PrintableOrTab text ∧ expandTabs text = shown ∧ '\t' ∉ shown ∧
      styles shown = [red.text, reset] ∧ Expands text shown ∧
      Expands ['a', '世', '\t', '\t', 'b'] (visible shown) ∧
      visible shown = ['a', '世'] ++ (List.replicate 13 ' ' ++ ['b']) ∧
      expandTabs shown = shown := by
  intro red text shown
  have letter {c : Char} (hc : Printable c) {cs : List Char} (h : Styled PrintableOrTab cs) :
      Styled PrintableOrTab (c :: cs) := .char (.inl hc) h
  have tab {cs : List Char} (h : Styled PrintableOrTab cs) :
      Styled PrintableOrTab ('\t' :: cs) := .char (.inr rfl) h
  have label : Styled PrintableOrTab ['a', '世'] := letter (by decide) (letter (by decide) .nil)
  have tabs : Styled PrintableOrTab ['\t', '\t', 'b'] := tab (tab (letter (by decide) .nil))
  have styled : Styled PrintableOrTab text := .style rfl (label.append (Styled.reset.append tabs))
  have same : expandTabs text = shown := by decide +kernel
  obtain ⟨no_tab, _, expands, plainly, _, _, again⟩ := tabs_end_at_stops styled
  rw [same] at no_tab expands plainly again
  have bare : unstyled text = ['a', '世', '\t', '\t', 'b'] := by decide +kernel
  rw [bare] at plainly
  refine ⟨styled, same, no_tab, ?_, expands, plainly, ?_, again⟩
  · decide +kernel
  · decide +kernel

end TestWatch.Text
