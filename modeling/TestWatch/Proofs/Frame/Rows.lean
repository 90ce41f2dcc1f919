import TestWatch.Proofs.Frame.Accounting
import Mathlib.Data.List.Basic

/-!
# The rows of a frame on a screen

A screen begins a row at every newline, also at one within an entry of the frame. The rows of a
frame are those of its entries, one after the other. Every entry with an escape sequence ends with
a reset, so of its rows the last one does; the others end as the text does that they come from.
-/

namespace TestWatch

theorem length_splitOn (a : Char) (cs : List Char) : (cs.splitOn a).length = cs.count a + 1 := by
  induction cs with
  | nil => rfl
  | cons c cs ih =>
    rw [List.splitOn_cons_eq_if_modifyHead, List.count_cons]
    split <;> simp [ih]

/-- The rows of a joined text are those of its parts. -/
theorem splitOn_intercalate_eq_flatMap (a : Char) {ls : List (List Char)} (h : ls ≠ []) :
    (List.intercalate [a] ls).splitOn a = ls.flatMap fun l => l.splitOn a := by
  induction ls with
  | nil => exact absurd rfl h
  | cons l ls ih =>
    cases ls with
    | nil => simp
    | cons k ks =>
      have rest := ih (by simp)
      rw [List.intercalate_cons_cons, List.append_assoc, List.singleton_append,
        List.splitOn_append_cons_self, rest]
      rfl

theorem mem_of_mem_splitOn {a c : Char} {cs row : List Char} (hr : row ∈ cs.splitOn a)
    (hc : c ∈ row) : c ∈ cs := by
  induction cs generalizing row with
  | nil =>
    obtain rfl : row = [] := by simpa using hr
    exact hc
  | cons x xs ih =>
    rw [List.splitOn_cons_eq_if_modifyHead] at hr
    split at hr
    · rcases List.mem_cons.1 hr with rfl | hr
      · cases hc
      · exact List.mem_cons_of_mem _ (ih hr hc)
    · obtain ⟨y, ys, h⟩ := List.exists_cons_of_ne_nil (List.splitOn_ne_nil a xs)
      rw [h, List.modifyHead_cons] at hr
      rcases List.mem_cons.1 hr with rfl | hr
      · rcases List.mem_cons.1 hc with rfl | hc
        · exact List.mem_cons_self
        · exact List.mem_cons_of_mem _ (ih (h ▸ List.mem_cons_self) hc)
      · exact List.mem_cons_of_mem _ (ih (h ▸ List.mem_cons_of_mem _ hr) hc)

theorem mem_intercalate (sep : List Char) {ls : List (List Char)} {l : List Char} (hl : l ∈ ls)
    {c : Char} (hc : c ∈ l) : c ∈ List.intercalate sep ls := by
  induction ls with
  | nil => cases hl
  | cons k ks ih =>
    cases ks with
    | nil =>
      rw [List.mem_singleton.1 hl] at hc
      simpa using hc
    | cons j js =>
      rw [List.intercalate_cons_cons]
      rcases List.mem_cons.1 hl with rfl | hl
      · exact List.mem_append_left _ (List.mem_append_left _ hc)
      · exact List.mem_append_right _ (ih hl)

theorem exists_splitOn_append {a : Char} {t : List Char} (ht : a ∉ t) (cs : List Char) :
    ∃ init last, cs.splitOn a = init ++ [last] ∧ (cs ++ t).splitOn a = init ++ [last ++ t] := by
  induction cs with
  | nil => exact ⟨[], [], rfl, List.splitOn_eq_singleton ht⟩
  | cons c cs ih =>
    obtain ⟨init, last, h, ht⟩ := ih
    rw [List.cons_append, List.splitOn_cons_eq_if_modifyHead, List.splitOn_cons_eq_if_modifyHead,
      h, ht]
    by_cases hc : (c == a) = true
    · rw [if_pos hc, if_pos hc]
      exact ⟨[] :: init, last, rfl, rfl⟩
    · rw [if_neg hc, if_neg hc]
      cases init with
      | nil => exact ⟨[], c :: last, rfl, rfl⟩
      | cons x xs => exact ⟨(c :: x) :: xs, last, rfl, rfl⟩

/-- The rows that a frame takes on a screen. -/
def screenRows (frame : List Char) : List (List Char) :=
  if frame = [] then [] else frame.splitOn '\n'

/-- No style goes on beyond the end of the text. -/
def ClosesStyles (cs : List Char) : Prop := Text.esc ∈ cs → Text.reset <:+ cs

/-- The rows fit the height, and no style goes on beyond any of them. -/
def Tidy (height : Nat) (frame : List Char) : Prop :=
  (screenRows frame).length ≤ height ∧ ∀ row ∈ screenRows frame, ClosesStyles row

instance (cs : List Char) : Decidable (ClosesStyles cs) :=
  inferInstanceAs (Decidable (Text.esc ∈ cs → Text.reset <:+ cs))

instance (height : Nat) (frame : List Char) : Decidable (Tidy height frame) :=
  inferInstanceAs (Decidable (_ ∧ _))

theorem closesStyles_ensureReset (cs : List Char) : ClosesStyles (Text.ensureReset cs) := by
  unfold ClosesStyles Text.ensureReset
  split
  · exact fun _ => List.suffix_append _ _
  · rename_i h
    intro he
    by_contra hr
    have open_ : Text.reset.isSuffixOf cs = false := by
      rwa [← Bool.not_eq_true, List.isSuffixOf_iff_suffix]
    exact h (by simp [he, open_])

theorem mem_ensureReset {c : Char} {cs : List Char} (h : c ∈ cs) : c ∈ Text.ensureReset cs := by
  unfold Text.ensureReset
  split
  · exact List.mem_append_left _ h
  · exact h

/-- If a text closes its styles, so does its last row. -/
theorem ClosesStyles.rows_iff {cs : List Char} (h : ClosesStyles cs) :
    (∀ row ∈ cs.splitOn '\n', ClosesStyles row) ↔
      ∀ row ∈ (cs.splitOn '\n').dropLast, ClosesStyles row := by
  have rows := List.dropLast_append_getLast (List.splitOn_ne_nil '\n' cs)
  refine ⟨fun all row hr => all row (rows ▸ List.mem_append_left _ hr), fun init row hr => ?_⟩
  rw [← rows] at hr
  rcases List.mem_append.1 hr with hr | hr
  · exact init row hr
  · rw [List.mem_singleton.1 hr]
    intro he
    obtain ⟨t, rfl⟩ := h (mem_of_mem_splitOn (List.getLast_mem _) he)
    obtain ⟨_, last, _, hs⟩ := exists_splitOn_append (a := '\n') (t := Text.reset) (by decide) t
    simp [hs]

section Joined

variable {ls : List (List Char)} (some_text : List.intercalate ['\n'] ls = [] → ls = [])
include some_text

theorem screenRows_intercalate :
    screenRows (List.intercalate ['\n'] ls) = ls.flatMap fun l => l.splitOn '\n' := by
  by_cases h : ls = []
  · subst h
    rfl
  · rw [screenRows, if_neg fun he => h (some_text he), splitOn_intercalate_eq_flatMap _ h]

/-- A joined text takes a row for each of its parts, and for each newline within them. -/
theorem length_screenRows_intercalate : (screenRows (List.intercalate ['\n'] ls)).length =
    ls.length + totalLines (ls.map fun l => l.count '\n') := by
  rw [screenRows_intercalate some_text, length_flatMap_eq_totalLines fun l _ => length_splitOn _ l]
  clear some_text
  induction ls with
  | nil => rfl
  | cons l ls ih =>
    rw [List.map_cons, List.map_cons, totalLines_cons, totalLines_cons, ih, List.length_cons]
    omega

/-- Of the rows that a part takes, the last one is closed by the end of the part. -/
theorem closesStyles_screenRows_iff (closed : ∀ l ∈ ls, ClosesStyles l) :
    (∀ row ∈ screenRows (List.intercalate ['\n'] ls), ClosesStyles row) ↔
      ∀ l ∈ ls, ∀ row ∈ (l.splitOn '\n').dropLast, ClosesStyles row := by
  rw [screenRows_intercalate some_text]
  constructor
  · intro all l hl
    exact (closed l hl).rows_iff.1 fun row hr => all row (List.mem_flatMap.2 ⟨l, hl, hr⟩)
  · intro all row hr
    obtain ⟨l, hl, hr⟩ := List.mem_flatMap.1 hr
    exact (closed l hl).rows_iff.2 (all l hl) row hr

end Joined

theorem exists_ensureReset_of_alignLine? {lead label right line : List Char} {width : Nat}
    (h : alignLine? lead label right width = some line) :
    ∃ cs, ' ' ∈ cs ∧ line = Text.ensureReset cs := by
  unfold alignLine? at h
  simp only at h
  split at h
  · refine ⟨_, ?_, (Option.some.inj h).symm⟩
    simp [Columns.gutter]
  · cases h

namespace Viewer

variable {v : Viewer} {m : Moment} {width height : Nat} {r : Run} {lines : List (List Char)}
  (h : v.lines? m width height r = some lines)
include h

theorem closesStyles_of_lines? : ∀ l ∈ lines, ClosesStyles l := by
  have aligned (a : Aligned) : ∀ l, (Entry.aligned a).text? width = some l → ClosesStyles l := by
    intro l hl
    obtain ⟨cs, _, rfl⟩ := exists_ensureReset_of_alignLine? hl
    exact closesStyles_ensureReset cs
  have cut (cs : List Char) : ∀ l, (Entry.cut cs).text? width = some l → ClosesStyles l := by
    intro l hl
    rw [← Option.some.inj hl]
    exact closesStyles_ensureReset _
  have rule : ClosesStyles (v.look.paint .dim (v.look.rule width)) := by
    unfold Look.paint
    split
    · exact fun _ => List.suffix_append _ _
    · intro he
      have := List.eq_of_mem_replicate he
      split at this <;> cases this
  have all : ∀ e ∈ v.entries m width height r, ∀ l, e.text? width = some l → ClosesStyles l := by
    apply forall_mem_entries
    case blank => rintro _ ⟨⟩ ⟨⟩
    case loose => exact fun _ _ => cut _
    case package => exact fun p _ => aligned _
    case test => exact fun p _ t _ => aligned _
    case output => exact fun p _ t _ l _ => cut _
    case rule => rintro _ ⟨⟩; exact rule
    case run => exact aligned _
  intro l hl
  obtain ⟨e, he, written⟩ := exists_entry_of_lines? h hl
  exact all e he l written

/-- A frame with a line is not empty, because the line of the run is not. -/
theorem lines_eq_nil_of_intercalate (empty : List.intercalate ['\n'] lines = []) :
    lines = [] := by
  rcases Nat.eq_zero_or_pos height with rfl | some_line
  · have length := length_of_lines? h
    rw [Nat.zero_min] at length
    exact List.length_eq_zero_iff.1 length
  · cases last : lines.getLast? with
    | none => exact List.getLast?_eq_none_iff.1 last
    | some l =>
      have written := getLast?_lines? v m h some_line
      rw [last] at written
      obtain ⟨cs, blank, rfl⟩ := exists_ensureReset_of_alignLine? written.symm
      have space := mem_intercalate ['\n'] (List.mem_of_getLast? last) (mem_ensureReset blank)
      rw [empty] at space
      cases space

theorem length_screenRows : (screenRows (List.intercalate ['\n'] lines)).length =
    lines.length + totalLines (lines.map fun l => l.count '\n') :=
  length_screenRows_intercalate (lines_eq_nil_of_intercalate h)

theorem tidy_iff : Tidy height (List.intercalate ['\n'] lines) ↔
    lines.length + totalLines (lines.map fun l => l.count '\n') ≤ height ∧
      ∀ l ∈ lines, ∀ row ∈ (l.splitOn '\n').dropLast, ClosesStyles row := by
  rw [Tidy, length_screenRows h]
  exact and_congr_right fun _ =>
    closesStyles_screenRows_iff (lines_eq_nil_of_intercalate h) (closesStyles_of_lines? h)

end Viewer
end TestWatch
