import TestWatch.Proofs.Frame.Rows
import TestWatch.Proofs.Text.Printable

/-!
# Texts of one line

A frame adds no newlines of its own to the texts that it shows. If no event brings one, within a
name or before the end of its output, every line of a frame takes one row of the screen.
-/

namespace TestWatch

def Text.OneLine (cs : List Char) : Prop := '\n' ∉ cs

namespace Text

instance (cs : List Char) : Decidable (OneLine cs) := inferInstanceAs (Decidable ('\n' ∉ cs))

@[simp] theorem oneLine_nil : OneLine [] := List.not_mem_nil

@[simp] theorem oneLine_cons {c : Char} {cs : List Char} :
    OneLine (c :: cs) ↔ c ≠ '\n' ∧ OneLine cs := by
  simp [OneLine, eq_comm]

@[simp] theorem oneLine_append {as bs : List Char} :
    OneLine (as ++ bs) ↔ OneLine as ∧ OneLine bs := by
  simp [OneLine]

theorem oneLine_replicate {c : Char} (hc : c ≠ '\n') (n : Nat) : OneLine (List.replicate n c) :=
  fun h => hc (List.eq_of_mem_replicate h).symm

theorem OneLine.expandTabs {cs : List Char} (h : OneLine cs) : OneLine (expandTabs cs) := by
  intro hn
  rcases mem_of_mem_expandTabs hn with hn | hn
  · cases hn
  · exact h hn

theorem OneLine.cut {cs : List Char} (h : OneLine cs) (limit : Nat) : OneLine (cut limit cs) :=
  fun hn => h (mem_of_mem_cut hn)

theorem OneLine.ensureReset {cs : List Char} (h : OneLine cs) : OneLine (ensureReset cs) := by
  intro hn
  rcases mem_of_mem_ensureReset hn with hn | hn
  · exact h hn
  · exact absurd hn (by decide)

theorem Printed.oneLine {cs : List Char} (h : Printed cs) : OneLine cs :=
  fun hn => (h '\n' hn).ne (by decide) rfl

theorem oneLine_paint (look : Look) (s : Style) {cs : List Char} (h : OneLine cs) :
    OneLine (look.paint s cs) := by
  have on : OneLine s.on := by cases s <;> decide
  have off : OneLine reset := by decide
  unfold Look.paint
  split
  · simp [on, off, h]
  · exact h

theorem oneLine_paintedIcon (look : Look) (tick : Nat) (s : Status) :
    OneLine (look.paintedIcon tick s) :=
  oneLine_paint _ _ (oneLine_cons.2 ⟨(printable_icon look tick s).ne (by decide), oneLine_nil⟩)

theorem oneLine_columns (w : Columns) (look : Look) (c : Counts) (d : Duration) :
    OneLine (w.text look c d) := by
  have number (s : Style) (width n : Nat) : OneLine (look.paint s (padLeft width (decimal n))) :=
    oneLine_paint look s (printed_padLeft (printed_decimal n) width).oneLine
  simp [Columns.text, Columns.gutter, number, (printed_padLeft (printed_short d) _).oneLine]

theorem OneLine.fitLine {cs : List Char} (h : OneLine cs) (width : Nat) :
    OneLine (fitLine cs width) := by
  unfold TestWatch.fitLine
  apply OneLine.ensureReset
  split
  · exact h.cut _
  · exact h

theorem oneLine_of_alignLine? {lead label right line : List Char} {width : Nat}
    (hl : OneLine lead) (hlabel : OneLine label) (hr : OneLine right)
    (h : alignLine? lead label right width = some line) : OneLine line := by
  have fitted (budget : Nat) : OneLine (fitLabel budget label) := by
    unfold fitLabel
    split
    · exact hlabel.cut _
    · exact hlabel
  have off : OneLine reset := by decide
  unfold alignLine? at h
  simp only at h
  split at h
  · rw [← Option.some.inj h, joinHalves]
    apply OneLine.ensureReset
    simp only [oneLine_append, Columns.gutter]
    refine ⟨⟨⟨?_, oneLine_replicate (by decide) _⟩, by decide⟩, hr⟩
    split
    · simp [hl, fitted, off]
    · simp [hl, fitted]
  · cases h

end Text

/-- No name and no output of the event holds a newline, but for blanks at the end. -/
def TestEvent.OneLine (e : TestEvent) : Prop :=
  Text.OneLine e.package.toList ∧ Text.OneLine e.test.toList ∧ Text.OneLine e.line

instance (e : TestEvent) : Decidable e.OneLine := inferInstanceAs (Decidable (_ ∧ _ ∧ _))

theorem TestEvent.OneLine.texts {e : TestEvent} (h : e.OneLine) : e.Texts Text.OneLine := by
  obtain ⟨package, test, line⟩ := h
  exact ⟨package, test, line, fun hn => line ((List.dropWhile_sublist _).mem hn)⟩

namespace Viewer

variable (v : Viewer) (m : Moment) (width height : Nat)

theorem oneLine_of_mem_lines? {r : Run} (hr : r.Texts Text.OneLine) {lines : List (List Char)}
    (h : v.lines? m width height r = some lines) : ∀ l ∈ lines, Text.OneLine l := by
  have word : Text.OneLine "=== RUN   ".toList := by decide
  have cut {cs : List Char} (hcs : Text.OneLine cs) :
      ∀ l, (Entry.cut cs).text? width = some l → Text.OneLine l := by
    rintro _ ⟨⟩
    exact hcs.fitLine width
  have all : ∀ e ∈ v.entries m width height r, ∀ l, e.text? width = some l → Text.OneLine l := by
    apply forall_mem_entries
    case blank =>
      rintro _ ⟨⟩
      exact Text.oneLine_nil
    case loose => exact fun l hl => cut (hr.loose l hl).expandTabs
    case package =>
      intro p hp _
      exact Text.oneLine_of_alignLine? (by simp [alignedPackage, Text.oneLine_paintedIcon])
        (hr.package hp).label.expandTabs (Text.oneLine_columns _ _ _ _)
    case test =>
      intro p _ t ht _
      have label : Text.OneLine (testLabel t).toList :=
        (hr.test ht).label fun cs hcs => Text.oneLine_append.2 ⟨word, hcs⟩
      exact Text.oneLine_of_alignLine? (by simp [alignedTest, Text.oneLine_paintedIcon])
        label.expandTabs (Text.printed_padLeft (Text.printed_short _) _).oneLine
    case output =>
      intro p _ t ht l hl
      have line := ((hr.test ht).2.2 l hl).expandTabs
      exact cut (by simpa using line)
    case rule =>
      rintro _ ⟨⟩
      exact Text.oneLine_paint _ _ (Text.printed_rule _ _).oneLine
    case run =>
      intro _
      refine Text.oneLine_of_alignLine? Text.oneLine_nil (Text.oneLine_paint _ _ ?_)
        (Text.oneLine_columns _ _ _ _)
      cases r.status <;> decide
  intro l hl
  obtain ⟨e, he, written⟩ := exists_entry_of_lines? h hl
  exact all e he l written

/-- A frame takes a row for each of its lines, and for each newline within them. So it is tidy
exactly if there is room for those too, and no style goes on beyond a newline within a line. Where
no event brings such a newline, every frame is tidy. There is a frame exactly if each label, once it
is cut, takes no more columns than it is given. -/
theorem tidy_frame_iff (mode : Mode) (events : List (Timestamp × TestEvent)) {r : Run}
    (hr : r ∈ (History.empty.pushAll mode events).runs) :
    v.frame? m width height r = (v.lines? m width height r).map (List.intercalate ['\n']) ∧
    ((∃ lines, v.lines? m width height r = some lines) ↔
      ∀ a ∈ v.aligned m height r, Text.width (a.fitted width) ≤ a.budget width) ∧
    ∀ lines, v.lines? m width height r = some lines →
      let frame := List.intercalate ['\n'] lines
      let newlines := totalLines (lines.map fun l => l.count '\n')
      (screenRows frame).length = lines.length + newlines ∧
        (Tidy height frame ↔ lines.length + newlines ≤ height ∧
          ∀ l ∈ lines, ∀ row ∈ (l.splitOn '\n').dropLast, ClosesStyles row) ∧
        ((∀ e ∈ events, e.2.OneLine) → Tidy height frame) := by
  refine ⟨rfl, ?_, fun lines shown => ?_⟩
  · have some_iff : (∃ lines, v.lines? m width height r = some lines) ↔
        v.frame? m width height r ≠ none := by
      rw [← Option.ne_none_iff_exists', frame?, ne_eq, ne_eq, Option.map_eq_none_iff]
    rw [some_iff, ne_eq, frame?_eq_none_iff_aligned]
    push Not
    exact Iff.rfl
  · intro frame newlines
    refine ⟨length_screenRows shown, tidy_iff shown, fun h => ?_⟩
    have texts := History.texts_pushAll mode (fun e he => (h e he).texts) r hr
    have one_line := v.oneLine_of_mem_lines? m width height texts shown
    have none_inside : newlines = 0 := by
      apply totalLines_map_eq_zero
      exact fun l hl => List.count_eq_zero.2 (one_line l hl)
    refine (tidy_iff shown).2 ⟨?_, fun l hl row hrow => ?_⟩
    · change lines.length + newlines ≤ height
      rw [none_inside, length_of_lines? shown]
      exact Nat.min_le_left _ _
    · rw [List.splitOn_eq_singleton (one_line l hl)] at hrow
      cases hrow

/-- A newline at the end of an output is no newline within a line. -/
theorem tidy_frame_iff_one_line :
    let events := [(default, ⟨default, .buildOutput, "", "", "\x1b[31mred\n", none⟩)]
    let v : Viewer := ⟨⟨false, false⟩, 6, .heuristic⟩
    ∃ r ∈ (History.empty.pushAll .live events).runs, ∃ frame,
      v.frame? ⟨default, none⟩ 80 3 r = some frame ∧ Tidy 3 frame := by
  intro events v
  have one_line : ∀ e ∈ events, e.2.OneLine := by decide
  obtain ⟨r, hr⟩ : ∃ r, r ∈ (History.empty.pushAll .live events).runs := ⟨_, List.mem_cons_self⟩
  have written : ∀ r ∈ (History.empty.pushAll .live events).runs,
      (v.lines? ⟨default, none⟩ 80 3 r).isSome := by decide +kernel
  obtain ⟨lines, shown⟩ := Option.isSome_iff_exists.1 (written r hr)
  obtain ⟨joined, _, tidy⟩ := tidy_frame_iff v ⟨default, none⟩ 80 3 .live events hr
  exact ⟨r, hr, _, joined.trans (congrArg _ shown), (tidy lines shown).2.2 one_line⟩

/-- An output of two lines in one event: the frame takes four rows, where three are left, and the
first of them stays red. -/
theorem not_tidy_two_lines :
    let events := [(default, ⟨default, .buildOutput, "", "", "\x1b[31mred\nplain", none⟩)]
    let frame? := frame? ⟨⟨false, false⟩, 6, .heuristic⟩ ⟨default, none⟩ 80
    ∃ r ∈ (History.empty.pushAll .live events).runs,
      (∃ frame ∈ frame? 3 r, (screenRows frame).length = 4) ∧
        ∃ frame ∈ frame? 24 r, ∃ row ∈ screenRows frame, ¬ ClosesStyles row := by
  decide

end Viewer
end TestWatch
