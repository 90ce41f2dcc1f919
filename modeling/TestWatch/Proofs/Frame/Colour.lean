import TestWatch.Proofs.Frame.Fits
import TestWatch.Proofs.Text.Tint
import Mathlib.Data.List.Forall2

/-!
# Frames in colour

A frame in colour is the frame without colour, line by line and character by character, with style
sequences put in. What is measured on the way there takes the same columns with its style and
without, so nothing is cut or moved for the sake of a style.
-/

namespace TestWatch

open Text (Bare Tinted)

section Lists

variable {α β γ : Type} {R : β → β → Prop} {xs : List α}

theorem forall₂_flatMap {f g : α → List β} (h : ∀ x ∈ xs, List.Forall₂ R (f x) (g x)) :
    List.Forall₂ R (xs.flatMap f) (xs.flatMap g) := by
  induction xs with
  | nil => exact .nil
  | cons x xs ih =>
    rw [List.forall_mem_cons] at h
    rw [List.flatMap_cons, List.flatMap_cons]
    exact List.rel_append h.1 (ih h.2)

theorem forall₂_map {f g : α → β} (h : ∀ x ∈ xs, R (f x) (g x)) :
    List.Forall₂ R (xs.map f) (xs.map g) := by
  rw [List.forall₂_map_left_iff, List.forall₂_map_right_iff, List.forall₂_same]
  exact h

theorem tinted_lines {ls : List (List Char)} (h : ∀ l ∈ ls, Bare l) : List.Forall₂ Tinted ls ls :=
  List.forall₂_same.2 fun l hl => (h l hl).tinted

theorem rel_mapM {S : γ → γ → Prop} {f : β → Option γ} {xs ys : List β}
    (h : List.Forall₂ R xs ys) (step : ∀ x y, R x y → Option.Rel S (f x) (f y)) :
    Option.Rel (List.Forall₂ S) (xs.mapM f) (ys.mapM f) := by
  induction h with
  | nil => exact .some .nil
  | @cons x y xs ys first _ ih =>
    rw [List.mapM_cons, List.mapM_cons]
    have head := step x y first
    generalize f x = a, f y = b at head
    cases head with
    | none => exact .none
    | some head =>
      generalize xs.mapM f = as, ys.mapM f = bs at ih
      cases ih with
      | none => exact .none
      | some tail => exact .some (.cons head tail)

theorem Text.tinted_intercalate {ts ls : List (List Char)} (h : List.Forall₂ Tinted ts ls) :
    Tinted (List.intercalate ['\n'] ts) (List.intercalate ['\n'] ls) := by
  have newline : Tinted ['\n'] ['\n'] := Bare.tinted (by decide)
  induction h with
  | nil => exact .nil
  | @cons t l ts ls first rest ih =>
    cases rest with
    | nil => simpa using first
    | cons _ _ =>
      rw [List.intercalate_cons_cons, List.intercalate_cons_cons]
      exact (first.append newline).append ih

end Lists

namespace Look

def uncolored (look : Look) : Look := { look with color := false }

variable (look : Look)

theorem tinted_paint (s : Style) {cs : List Char} (h : Bare cs) :
    Tinted (look.paint s cs) (look.uncolored.paint s cs) := h.paint look s

theorem tinted_paintedIcon (tick : Nat) (s : Status) :
    Tinted (look.paintedIcon tick s) (look.uncolored.paintedIcon tick s) :=
  look.tinted_paint _ (Text.bare_cons.2 ⟨(Text.printable_icon look tick s).plain, Text.bare_nil⟩)

theorem tinted_columns (w : Columns) (c : Counts) (d : Duration) :
    Tinted (w.text look c d) (w.text look.uncolored c d) := by
  have number (s : Style) (width n : Nat) :
      Tinted (look.paint s (padLeft width (decimal n)))
        (look.uncolored.paint s (padLeft width (decimal n))) :=
    look.tinted_paint s (Text.printed_padLeft (Text.printed_decimal n) width).bare
  have gutter : Tinted Columns.gutter Columns.gutter := Bare.tinted (by decide)
  have elapsed := gutter.append
    (Text.printed_padLeft (Text.printed_short d) w.elapsed).bare.tinted
  have blank : Text.Plain ' ' := by decide
  simp only [Columns.text, List.append_assoc]
  exact (number ..).append (.char blank ((number ..).append (.char blank
    ((number ..).append elapsed))))

end Look

section Lines

theorem Text.Bare.fitLabel {label : List Char} (h : Bare label) (budget : Nat) :
    Bare (fitLabel budget label) := by
  unfold TestWatch.fitLabel
  split
  · exact h.cut budget
  · exact h

theorem tinted_fitLabel_paint {label : List Char} (h : Bare label) (look : Look) (s : Style)
    (budget : Nat) : Tinted (fitLabel budget (look.paint s label)) (fitLabel budget label) := by
  have same := (h.paint look s).width
  rw [fitLabel, fitLabel, same]
  split
  · exact h.cut_paint look s budget
  · exact h.paint look s

/-- A line is aligned in the same way with its styles as without, if its label is cut so. -/
theorem tinted_alignLine? {lead lead' label label' right right' : List Char}
    (hlead : Tinted lead lead') (hlabel : ∀ budget, Tinted (fitLabel budget label)
      (fitLabel budget label')) (hright : Tinted right right') (width : Nat) :
    Option.Rel Tinted (alignLine? lead label right width) (alignLine? lead' label' right' width) := by
  have budget : labelBudget lead right width = labelBudget lead' right' width := by
    rw [labelBudget, labelBudget, hlead.width, hright.width]
  have fitted := hlabel (labelBudget lead' right' width)
  have left := hlead.append fitted
  have gutter : Tinted Columns.gutter Columns.gutter := Bare.tinted (by decide)
  have padding (n : Nat) : Tinted (List.replicate n ' ') (List.replicate n ' ') :=
    (Text.bare_replicate (by decide) n).tinted
  simp only [alignLine?, budget, fitted.width]
  split
  · simp only [joinHalves, left.bare.contains_esc]
    exact .some (((left.closed.append (padding _)).append gutter).append hright).ensureReset
  · exact .none

theorem Text.Bare.fitLine {line : List Char} (h : Bare line) (width : Nat) :
    Bare (fitLine line width) := by
  unfold TestWatch.fitLine
  split
  · rw [(h.cut width).ensureReset]
    exact h.cut width
  · rw [h.ensureReset]
    exact h

end Lines

/-- Entries that say the same, but for the styles of one of them. -/
inductive Entry.Tints : Entry → Entry → Prop
  | aligned {a b : Aligned} (lead : Tinted a.lead b.lead)
    (label : ∀ budget, Tinted (fitLabel budget a.label) (fitLabel budget b.label))
    (right : Tinted a.right b.right) : Tints (.aligned a) (.aligned b)
  | cut {line : List Char} (bare : Bare line) : Tints (.cut line) (.cut line)
  | whole {line line' : List Char} (tinted : Tinted line line') : Tints (.whole line) (.whole line')

theorem Entry.Tints.text? {e e' : Entry} (h : e.Tints e') (width : Nat) :
    Option.Rel Tinted (e.text? width) (e'.text? width) := by
  cases h with
  | aligned lead label right => exact tinted_alignLine? lead label right width
  | cut bare => exact .some (bare.fitLine width).tinted
  | whole tinted => exact .some tinted

namespace Viewer

def uncolored (v : Viewer) : Viewer := { v with look := v.look.uncolored }

variable (v : Viewer) (m : Moment) (columns : Columns) (width : Nat)

theorem tints_package {p : Package} (h : p.Texts Bare) :
    (Entry.aligned (v.alignedPackage m columns p)).Tints
      (.aligned (v.uncolored.alignedPackage m columns p)) := by
  have blank : Tinted [' '] [' '] := Bare.tinted (by decide)
  apply Entry.Tints.aligned
  · exact (v.look.tinted_paintedIcon ..).append blank
  · exact fun budget => (h.label.expandTabs.fitLabel budget).tinted
  · exact v.look.tinted_columns ..

theorem tints_test {t : Test} (h : t.Texts Bare) :
    (Entry.aligned (v.alignedTest m columns t)).Tints
      (.aligned (v.uncolored.alignedTest m columns t)) := by
  have blank : Tinted [' '] [' '] := Bare.tinted (by decide)
  have blanks : Tinted [' ', ' '] [' ', ' '] := Bare.tinted (by decide)
  have label : Bare (testLabel t).toList :=
    h.label fun cs hcs => Text.bare_append.2 ⟨by decide, hcs⟩
  apply Entry.Tints.aligned
  · exact (blanks.append (v.look.tinted_paintedIcon ..)).append blank
  · exact fun budget => (label.expandTabs.fitLabel budget).tinted
  · exact (Text.printed_padLeft (Text.printed_short (m.ofTest t)) columns.elapsed).bare.tinted

theorem tints_testEntries {t : Test} (h : t.Texts Bare) (lines : Nat) :
    List.Forall₂ Entry.Tints (v.testEntries m columns lines t)
      (v.uncolored.testEntries m columns lines t) := by
  cases lines with
  | zero => exact .nil
  | succ n =>
    refine .cons (v.tints_test m columns h) (forall₂_map fun l hl => ?_)
    have printed : l ∈ t.output := by
      unfold testOutput at hl
      split at hl
      · exact List.mem_of_mem_drop hl
      · cases hl
    exact .cut (Text.bare_append.2 ⟨by decide, (h.2.2 l printed).expandTabs⟩)

theorem tints_footer (r : Run) : List.Forall₂ Entry.Tints (v.footer m columns width r)
    (v.uncolored.footer m columns width r) := by
  have rule := v.look.tinted_paint .dim (Text.printed_rule v.look width).bare
  have run : (Entry.aligned (v.alignedRun m columns r)).Tints
      (.aligned (v.uncolored.alignedRun m columns r)) := by
    apply Entry.Tints.aligned
    · exact .nil
    · exact tinted_fitLabel_paint (Text.printed_word _).bare v.look _
    · exact v.look.tinted_columns ..
  unfold footer
  split
  · exact .cons run .nil
  · exact .cons (.whole rule) (.cons run .nil)

theorem tints_looseEntries {r : Run} (h : r.Texts Bare) :
    List.Forall₂ Entry.Tints (looseEntries r) (looseEntries r) := by
  apply List.rel_append
  · exact forall₂_map fun l hl => .cut (h.loose l hl).expandTabs
  · split
    · exact .nil
    · exact .cons (.whole .nil) .nil

theorem tints_entries {r : Run} (h : r.Texts Bare) (height : Nat) :
    List.Forall₂ Entry.Tints (v.entries m width height r)
      (v.uncolored.entries m width height r) := by
  refine List.rel_append (List.rel_append (tints_looseEntries h) ?_) (v.tints_footer ..)
  refine forall₂_flatMap fun p hp => .cons (v.tints_package m _ (h.package hp)) ?_
  split
  · exact forall₂_flatMap fun t ht => v.tints_testEntries m _ (h.test ht) _
  · exact .nil

theorem tinted_frame? {r : Run} (h : r.Texts Bare) (height : Nat) :
    Option.Rel Tinted (v.frame? m width height r) (v.uncolored.frame? m width height r) := by
  have written := rel_mapM (v.tints_entries m width h height)
    fun _ _ tints => Entry.Tints.text? tints width
  rw [frame?, frame?, lines?, lines?]
  generalize (v.entries m width height r).mapM (Entry.text? width) = as,
    (v.uncolored.entries m width height r).mapM (Entry.text? width) = bs at written
  cases written with
  | none => exact .none
  | some all =>
    apply Option.Rel.some
    simp only [all.length_eq]
    exact Text.tinted_intercalate (List.forall₂_drop _ all)

end Viewer

end TestWatch
