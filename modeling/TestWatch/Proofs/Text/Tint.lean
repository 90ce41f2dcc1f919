import TestWatch.Proofs.Text.Printable

/-!
# Texts with and without styles

A tinted text is a bare one with style sequences put in between. Deleting every style sequence
gives the bare text back, and both take the same columns. So a label is cut at the same character
with its style as without.
-/

namespace TestWatch.Text

def isStyleParameter (c : Char) : Bool := c.isDigit || c == ';'

/-- The length of the style sequence that a text begins with: digits and semicolons in brackets. -/
def styleLength? : List Char → Option Nat
  | '\x1b' :: '[' :: cs =>
    match cs.dropWhile isStyleParameter with
    | 'm' :: _ => some ((cs.takeWhile isStyleParameter).length + 3)
    | _ => none
  | _ => none

/-- The text without its style sequences; the next `left` characters belong to one. -/
def unstyledFrom (left : Nat) : List Char → List Char
  | [] => []
  | c :: cs =>
    match left with
    | n + 1 => unstyledFrom n cs
    | 0 =>
      match styleLength? (c :: cs) with
      | some (n + 1) => unstyledFrom n cs
      | _ => c :: unstyledFrom 0 cs

def unstyled (cs : List Char) : List Char := unstyledFrom 0 cs

theorem unstyledFrom_append (xs cs : List Char) :
    unstyledFrom xs.length (xs ++ cs) = unstyled cs := by
  induction xs with
  | nil => rfl
  | cons x xs ih => simp [unstyledFrom, ih]

theorem styleLength?_cons {c : Char} (h : c ≠ esc) (cs : List Char) :
    styleLength? (c :: cs) = none := by
  unfold styleLength?
  split
  · rename_i heq
    exact absurd (List.cons.inj heq).1 h
  · rfl

theorem unstyled_cons {c : Char} (h : c ≠ esc) (cs : List Char) :
    unstyled (c :: cs) = c :: unstyled cs := by
  rw [unstyled, unstyledFrom, styleLength?_cons h]
  rfl

namespace Control

/-- A sequence that sets a style. -/
def IsStyle (k : Control) : Prop := k.last = 'm'

theorem styleLength?_text {k : Control} (h : k.IsStyle) (cs : List Char) :
    styleLength? (k.text ++ cs) = some k.text.length := by
  have parameters : ∀ c ∈ List.intercalate [';'] k.numbers, isStyleParameter c = true := by
    intro c hc
    rcases mem_or_of_mem_intercalate hc with ⟨n, hn, hc⟩ | rfl
    · simp [isStyleParameter, List.all_eq_true.1 (k.short n hn).2 c hc]
    · rfl
  have ends : isStyleParameter 'm' = false := by decide
  have text : k.text ++ cs =
      '\x1b' :: '[' :: (List.intercalate [';'] k.numbers ++ 'm' :: cs) := by
    rw [Control.text, h]
    simp [esc]
  have length : k.text.length = (List.intercalate [';'] k.numbers).length + 3 := by
    simp [Control.text]
  rw [text, length, styleLength?, List.dropWhile_append_of_pos parameters,
    List.takeWhile_append_of_pos parameters]
  simp [ends]

theorem unstyled_text {k : Control} (h : k.IsStyle) (cs : List Char) :
    unstyled (k.text ++ cs) = unstyled cs := by
  obtain ⟨xs, text⟩ : ∃ xs, k.text = esc :: xs := ⟨_, rfl⟩
  have sequence := styleLength?_text h cs
  rw [text, List.cons_append, List.length_cons] at sequence
  rw [text, List.cons_append, unstyled, unstyledFrom, sequence]
  exact unstyledFrom_append xs cs

end Control

/-- Nothing in the text begins a sequence. -/
def Bare (cs : List Char) : Prop := ∀ c ∈ cs, Plain c

instance (cs : List Char) : Decidable (Bare cs) := List.decidableBAll Plain cs

@[simp] theorem bare_nil : Bare [] := List.forall_mem_nil _

@[simp] theorem bare_cons {c : Char} {cs : List Char} : Bare (c :: cs) ↔ Plain c ∧ Bare cs :=
  List.forall_mem_cons

@[simp] theorem bare_append {as bs : List Char} : Bare (as ++ bs) ↔ Bare as ∧ Bare bs :=
  List.forall_mem_append

theorem bare_replicate {c : Char} (h : Plain c) (n : Nat) : Bare (List.replicate n c) := by
  intro d hd
  rwa [List.eq_of_mem_replicate hd]

theorem Printed.bare {cs : List Char} (h : Printed cs) : Bare cs := fun c hc => (h c hc).plain

theorem Bare.clean {cs : List Char} (h : Bare cs) : Clean Plain cs := .of_forall h

theorem Bare.cut {cs : List Char} (h : Bare cs) (limit : Nat) : Bare (cut limit cs) :=
  fun c hc => h c (mem_of_mem_cut hc)

theorem Bare.expandTabs {cs : List Char} (h : Bare cs) : Bare (expandTabs cs) := by
  intro c hc
  rcases mem_of_mem_expandTabs hc with rfl | hc
  · decide
  · exact h c hc

theorem Bare.contains_esc {cs : List Char} (h : Bare cs) : cs.contains esc = false := by
  rw [List.contains_eq_mem, decide_eq_false_iff_not]
  exact fun hc => (h esc hc).1 rfl

theorem Bare.ensureReset {cs : List Char} (h : Bare cs) : ensureReset cs = cs := by
  rw [Text.ensureReset, h.contains_esc]
  rfl

/-- The first text is the second one with style sequences put in. -/
inductive Tinted : List Char → List Char → Prop
  | nil : Tinted [] []
  | char {c : Char} {ts cs : List Char} :
      Plain c → Tinted ts cs → Tinted (c :: ts) (c :: cs)
  | style {k : Control} {ts cs : List Char} :
      k.IsStyle → Tinted ts cs → Tinted (k.text ++ ts) cs

theorem Bare.tinted {cs : List Char} (h : Bare cs) : Tinted cs cs := by
  induction cs with
  | nil => exact .nil
  | cons c cs ih =>
    rw [bare_cons] at h
    exact .char h.1 (ih h.2)

namespace Tinted

variable {ts cs : List Char}

theorem bare (h : Tinted ts cs) : Bare cs := by
  induction h with
  | nil => exact bare_nil
  | char hc _ ih => exact bare_cons.2 ⟨hc, ih⟩
  | style _ _ ih => exact ih

theorem unstyled (h : Tinted ts cs) : unstyled ts = cs := by
  induction h with
  | nil => rfl
  | char hc _ ih => rw [unstyled_cons hc.1, ih]
  | style style _ ih => rw [Control.unstyled_text style, ih]

theorem width (h : Tinted ts cs) : width ts = width cs := by
  induction h with
  | nil => rfl
  | char hc _ ih => rw [width_cons_of_plain hc, width_cons_of_plain hc, ih]
  | @style k _ _ _ _ ih => rw [width_control, ih]

theorem append {ts' cs' : List Char} (h : Tinted ts cs) (h' : Tinted ts' cs') :
    Tinted (ts ++ ts') (cs ++ cs') := by
  induction h with
  | nil => exact h'
  | char hc _ ih => exact .char hc ih
  | style style _ ih =>
    rw [List.append_assoc]
    exact .style style ih

end Tinted

theorem exists_control_reset : ∃ k : Control, k.IsStyle ∧ reset = k.text :=
  ⟨⟨[['0']], 'm', by decide, by decide⟩, rfl, rfl⟩

theorem exists_control_on (s : Style) : ∃ k : Control, k.IsStyle ∧ s.on = k.text := by
  cases s
  case count => exact ⟨⟨[['1']], 'm', by decide, by decide⟩, rfl, rfl⟩
  case pass => exact ⟨⟨[['3', '2'], ['1']], 'm', by decide, by decide⟩, rfl, rfl⟩
  case fail => exact ⟨⟨[['3', '1'], ['1']], 'm', by decide, by decide⟩, rfl, rfl⟩
  case skip => exact ⟨⟨[['3', '3'], ['1']], 'm', by decide, by decide⟩, rfl, rfl⟩
  case interrupted => exact ⟨⟨[['3', '5'], ['1']], 'm', by decide, by decide⟩, rfl, rfl⟩
  case running => exact ⟨⟨[['3', '6'], ['1']], 'm', by decide, by decide⟩, rfl, rfl⟩
  case heading => exact ⟨⟨[['1'], ['4']], 'm', by decide, by decide⟩, rfl, rfl⟩
  case dim => exact ⟨⟨[['2']], 'm', by decide, by decide⟩, rfl, rfl⟩

theorem Tinted.reset {ts cs : List Char} (h : Tinted ts cs) :
    Tinted (ts ++ reset) cs := by
  obtain ⟨k, style, text⟩ := exists_control_reset
  have ending := Tinted.style style .nil
  rw [List.append_nil] at ending
  have closed := h.append ending
  rwa [List.append_nil, ← text] at closed

/-- Whether styles are ended or not. -/
theorem Tinted.closed {ts cs : List Char} (h : Tinted ts cs) :
    Tinted (if ts.contains esc then ts ++ Text.reset else ts) cs := by
  split
  · exact h.reset
  · exact h

theorem Tinted.ensureReset {ts cs : List Char} (h : Tinted ts cs) :
    Tinted (ensureReset ts) (ensureReset cs) := by
  rw [h.bare.ensureReset, Text.ensureReset]
  split
  · exact h.reset
  · exact h

theorem Tinted.switchOn {ts cs : List Char} (h : Tinted ts cs) (s : Style) :
    Tinted (s.on ++ ts) cs := by
  obtain ⟨k, style, text⟩ := exists_control_on s
  rw [text]
  exact .style style h

/-- A style changes nothing but the tint. -/
theorem Bare.paint {cs : List Char} (h : Bare cs) (look : Look) (s : Style) :
    Tinted (look.paint s cs) cs := by
  unfold Look.paint
  split
  · rw [List.append_assoc]
    exact h.tinted.reset.switchOn s
  · exact h.tinted

/-- What comes after a bare text is cut as if it stood at its end. -/
theorem cutFrom_append_control {cs : List Char} (h : Bare cs) (k : Control) (limit column : Nat)
    (within : Bool) : cutFrom limit column within (marked (cs ++ k.text)) =
      cutFrom limit column within (marked cs) ++ k.text := by
  induction cs generalizing column within with
  | nil =>
    have ending := marked_control k []
    rw [List.append_nil] at ending
    rw [List.nil_append, ending, cutFrom_control]
    simp [marked, markedFrom, cutFrom]
  | cons c cs ih =>
    rw [bare_cons] at h
    rw [List.cons_append, marked_cons_of_plain h.1, marked_cons_of_plain h.1, cutFrom, cutFrom]
    split
    · dsimp only
      split
      · rw [ih h.2, List.cons_append]
      · exact ih h.2 ..
    · exact ih h.2 ..

/-- A label is cut at the same character, with a style around it or without. -/
theorem Bare.cut_paint {cs : List Char} (h : Bare cs) (look : Look) (s : Style) (limit : Nat) :
    Tinted (Text.cut limit (look.paint s cs)) (Text.cut limit cs) := by
  unfold Look.paint
  split
  · obtain ⟨on, on_style, on_text⟩ := exists_control_on s
    obtain ⟨off, off_style, off_text⟩ := exists_control_reset
    have cut_eq : Text.cut limit (s.on ++ cs ++ reset) = s.on ++ (Text.cut limit cs ++ reset) := by
      rw [on_text, off_text, List.append_assoc, Text.cut, marked_control, cutFrom_control,
        cutFrom_append_control h]
      rfl
    rw [cut_eq]
    exact (h.cut limit).tinted.reset.switchOn s
  · exact (h.cut limit).tinted

namespace Tinted

variable {ts cs : List Char}

theorem expandFrom (h : Tinted ts cs) (column : Nat) :
    Tinted (expandFrom column (marked ts)) (expandFrom column (marked cs)) := by
  induction h generalizing column with
  | nil => exact .nil
  | @char c ts cs hc _ ih =>
    rw [marked_cons_of_plain hc, marked_cons_of_plain hc, Text.expandFrom, Text.expandFrom]
    split
    · exact (bare_replicate (by decide) _).tinted.append (ih _)
    · exact .char hc (ih _)
  | @style k ts cs style _ ih =>
    rw [marked_control, expandFrom_control]
    exact .style style (ih column)

/-- Tabs are replaced by the same blanks, with styles in between or without. -/
theorem expandTabs (h : Tinted ts cs) : Tinted (expandTabs ts) (expandTabs cs) := h.expandFrom 0

end Tinted

end TestWatch.Text
