import TestWatch.Proofs.Frame.Colour
import TestWatch.Report.Text

/-!
# Reports in colour

Like a frame, a report in colour is the report without colour with style sequences put in. So no
style says anything that is not said without it.
-/

namespace TestWatch

open Text (Bare Tinted)

/-- No text of the run holds a character that begins an escape sequence. -/
def Run.Bare (r : Run) : Prop :=
  r.Each (Package.Texts Text.Bare) (fun t => Text.Bare t.package.toList ∧ t.Texts Text.Bare)
    fun l => Text.Bare l.toList

namespace Run.Bare

variable {r : Run} (h : r.Bare)
include h

theorem texts : r.Texts Text.Bare := ⟨h.packages, fun k t ht => (h.tests k t ht).2, h.loose⟩

theorem clean : r.Texts (Text.Clean Text.Plain) := by
  refine ⟨fun n p hp => ?_, fun k t ht => ?_, fun l hl => (h.loose l hl).clean⟩
  · obtain ⟨name, output⟩ := h.packages n p hp
    exact ⟨name.clean, fun l hl => (output l hl).clean⟩
  · obtain ⟨-, name, headline, output⟩ := h.tests k t ht
    exact ⟨name.clean, fun l hl => (headline l hl).clean, fun l hl => (output l hl).clean⟩

theorem packageName {p : Package} {t : Test} (ht : t ∈ r.testsIn p) :
    Text.Bare t.package.toList := by
  obtain ⟨x, _, hx⟩ := List.mem_filterMap.1 ht
  exact (h.tests _ t hx).1

end Run.Bare

theorem TestEvent.Texts.keepsBare {e : TestEvent} (h : e.Texts Text.Bare) (now : Timestamp) :
    Run.Keeps (Package.Texts Text.Bare)
      (fun t => Text.Bare t.package.toList ∧ t.Texts Text.Bare) (fun l => Text.Bare l.toList)
      now e := by
  obtain ⟨firstPackage, enter, record, printPackage, completePackage, firstTest, setStatus,
    printTest, completeTest, line⟩ := h.keeps now
  refine ⟨firstPackage, enter, record, printPackage, completePackage, ⟨h.package, firstTest⟩,
    fun t s ht => ⟨?_, setStatus t s ht.2⟩, fun t ht => ⟨?_, printTest t ht.2⟩,
    fun t s ht => ⟨ht.1, completeTest t s ht.2⟩, line⟩
  · unfold Test.setStatus
    split <;> exact ht.1
  · unfold Test.print
    repeat' split
    all_goals exact ht.1

/-- Events without escape sequences bring none into a run. -/
theorem History.bare_pushAll (mode : Mode) {events : List (Timestamp × TestEvent)}
    (h : ∀ e ∈ events, e.2.Texts Text.Bare) : ∀ r ∈ (empty.pushAll mode events).runs, r.Bare :=
  Ordered.forall_pushAll (fun id time now => Run.each_first id time now)
    (fun e he _ _ hr => Run.Each.push ((h e he).keepsBare e.1) hr mode) (.idle (by simp)) (by simp)

/-- What is best of a list is in it. -/
theorem mem_of_firstBest? {α : Type} {lt : α → α → Bool} {xs : List α} {a : α}
    (h : firstBest? lt xs = some a) : a ∈ xs := by
  have best (ys : List α) (x : α) : ys.foldl (better lt) x = x ∨ ys.foldl (better lt) x ∈ ys := by
    induction ys generalizing x with
    | nil => exact .inl rfl
    | cons y ys ih =>
      rcases ih (better lt x y) with same | later
      · rw [List.foldl_cons, same]
        unfold better
        split
        · exact .inr List.mem_cons_self
        · exact .inl rfl
      · exact .inr (List.mem_cons_of_mem _ later)
  cases xs with
  | nil => cases h
  | cons x xs =>
    rw [← Option.some.inj h]
    rcases best xs x with same | later
    · rw [same]
      exact List.mem_cons_self
    · exact List.mem_cons_of_mem _ later

namespace Reporter

def uncolored (rep : Reporter) : Reporter := { rep with look := rep.look.uncolored }

variable (rep : Reporter)

theorem bare_inBrackets (d : Duration) : Bare (inBrackets d) :=
  Text.bare_cons.2 ⟨by decide, Text.bare_append.2 ⟨(Text.printed_short d).bare, by decide⟩⟩

theorem bare_plural {noun : String} (h : Bare noun.toList) (n : Nat) : Bare (plural noun n) := by
  refine Text.bare_append.2 ⟨h, ?_⟩
  split <;> decide

theorem tinted_heading {title : List Char} (h : Bare title) :
    List.Forall₂ Tinted (rep.heading title) (rep.uncolored.heading title) :=
  .cons (rep.look.tinted_paint _ h) (.cons (Text.printed_rule rep.look _).bare.tinted .nil)

theorem tinted_item (s : Status) {text : List Char} (h : Bare text) :
    Tinted (rep.item s text) (rep.uncolored.item s text) := by
  have blanks : Tinted [' ', ' '] [' ', ' '] := Bare.tinted (by decide)
  have after : Bare (' ' :: text) := Text.bare_cons.2 ⟨by decide, h⟩
  exact (blanks.append (rep.look.tinted_paintedIcon ..)).append after.tinted

theorem tinted_failedTest {t : Test} (h : t.Texts Bare) :
    List.Forall₂ Tinted (rep.failedTest t) (rep.uncolored.failedTest t) := by
  have named : Bare (t.name.toList ++ ' ' :: inBrackets t.elapsed) :=
    Text.bare_append.2 ⟨h.1, Text.bare_cons.2 ⟨by decide, bare_inBrackets _⟩⟩
  refine .cons (rep.tinted_item _ named) (tinted_lines ?_)
  intro l hl
  obtain ⟨x, hx, rfl⟩ := List.mem_map.1 hl
  exact Text.bare_append.2 ⟨by decide, h.2.2 x hx⟩

theorem tinted_failedGroup {g : Group} (package : g.package.Texts Bare)
    (tests : ∀ t ∈ g.tests, t.Texts Bare) :
    List.Forall₂ Tinted (rep.failedGroup g) (rep.uncolored.failedGroup g) := by
  have output : Bare (g.package.output.getD "package failed").toList := by
    cases printed : g.package.output with
    | none => decide
    | some l => exact package.2 l printed
  refine .cons (rep.look.tinted_paint _ package.1) ?_
  split
  · exact .cons (rep.tinted_item _ output) .nil
  · exact forall₂_flatMap fun t ht => rep.tinted_failedTest (tests t ht)

theorem tinted_skippedGroup {g : Group} (package : g.package.Texts Bare)
    (tests : ∀ t ∈ g.tests, t.Texts Bare) :
    List.Forall₂ Tinted (rep.skippedGroup g) (rep.uncolored.skippedGroup g) :=
  .cons package.1.tinted (forall₂_map fun t ht => rep.tinted_item _ (tests t ht).1)

theorem tinted_slowLine (width : Nat) {t : Test} (package : Bare t.package.toList)
    (name : Bare t.name.toList) :
    Tinted (rep.slowLine width t) (rep.uncolored.slowLine width t) := by
  have blanks : Tinted [' ', ' '] [' ', ' '] := Bare.tinted (by decide)
  have elapsed := rep.look.tinted_paint .count
    (Text.printed_padLeft (Text.printed_short t.elapsed) width).bare
  have blank : Text.Plain ' ' := by decide
  exact ((blanks.append elapsed).append (.char blank (.char blank package.tinted))).append
    (.char blank name.tinted)

theorem tinted_section? {title : List Char} {body body' : List (List Char)} (h : Bare title)
    (hbody : List.Forall₂ Tinted body body') :
    List.Forall₂ Tinted (rep.section? title body) (rep.uncolored.section? title body') := by
  cases hbody with
  | nil => exact .nil
  | cons first rest =>
    exact List.rel_append (List.rel_append (rep.tinted_heading h) (.cons first rest))
      (.cons .nil .nil)

theorem tinted_packageLines {r : Run} (h : r.Texts Bare) :
    List.Forall₂ Tinted (rep.packageLines r) (rep.uncolored.packageLines r) := by
  have named {label : String} (hl : Bare label.toList) {what : List Char} (hw : Bare what)
      {p : Package} (hp : p ∈ r.packages.values) :
      Tinted (notable label p what) (notable label p what) := by
    refine Bare.tinted (Text.bare_append.2 ⟨Text.bare_append.2 ⟨hl, (h.package hp).1⟩, ?_⟩)
    exact Text.bare_cons.2 ⟨by decide, hw⟩
  unfold packageLines
  split
  · rename_i fastest slowest most is_fastest is_slowest is_most
    have blanks : Tinted [' ', ' '] [' ', ' '] := Bare.tinted (by decide)
    have count := rep.look.tinted_paint .count (Text.printed_decimal r.packages.size).bare
    have noun : Bare (' ' :: plural "package" r.packages.size) :=
      Text.bare_cons.2 ⟨by decide, bare_plural (by decide) _⟩
    have ran : Tinted " ran".toList " ran".toList := Bare.tinted (by decide)
    have tests : Bare ('(' :: decimal most.order.length ++ ' ' :: plural "test" most.order.length ++
        [')']) := by
      simp only [Text.bare_append, Text.bare_cons]
      exact ⟨⟨⟨by decide, (Text.printed_decimal _).bare⟩, by decide, bare_plural (by decide) _⟩,
        by decide⟩
    refine .cons (((blanks.append count).append noun.tinted).append ran)
      (.cons ?_ (.cons ?_ (.cons ?_ .nil)))
    · exact named (by decide) (bare_inBrackets _) (mem_of_firstBest? is_fastest)
    · exact named (by decide) (bare_inBrackets _) (mem_of_firstBest? is_slowest)
    · exact named (by decide) tests (mem_of_firstBest? is_most)
  · exact .cons (Bare.tinted (by decide)) .nil

theorem tinted_resultLine (r : Run) :
    Tinted (rep.resultLine r) (rep.uncolored.resultLine r) := by
  have blanks : Tinted [' ', ' '] [' ', ' '] := Bare.tinted (by decide)
  have blank : Text.Plain ' ' := by decide
  have word := rep.look.tinted_paint (.ofStatus r.status) (Text.printed_word r.status).bare
  have number (s : Style) (n : Nat) := rep.look.tinted_paint s (Text.printed_decimal n).bare
  have fixed (s : String) (h : Bare s.toList) : Tinted s.toList s.toList := h.tinted
  have noun : Bare (plural "test" r.counts.total) := bare_plural (by decide) _
  have tests := ((blanks.append word).append (.char blank (number .count r.counts.total))).append
    (.char blank noun.tinted)
  have passed := (tests.append (fixed " run: " (by decide))).append (number .pass r.counts.passed)
  have failed := (passed.append (fixed " passed, " (by decide))).append
    (number .fail r.counts.failed)
  have skipped := (failed.append (fixed " failed, " (by decide))).append
    (number .skip r.counts.skipped)
  have running : Tinted
      (if 0 < r.counts.running then
        ", ".toList ++ rep.look.paint .running (decimal r.counts.running) ++ " still running".toList
      else [])
      (if 0 < r.counts.running then
        ", ".toList ++ rep.uncolored.look.paint .running (decimal r.counts.running) ++
          " still running".toList
      else []) := by
    split
    · exact ((fixed ", " (by decide)).append (number .running _)).append
        (fixed " still running" (by decide))
    · exact .nil
  have ended := ((skipped.append (fixed " skipped" (by decide))).append running).append
    (fixed " in " (by decide))
  exact ended.append (Text.printed_short _).bare.tinted

section Sections

variable {r : Run}

theorem tinted_failures (h : r.Texts Bare) :
    List.Forall₂ Tinted (r.failures.flatMap rep.failedGroup)
      (r.failures.flatMap rep.uncolored.failedGroup) := by
  refine forall₂_flatMap fun g hg => ?_
  obtain ⟨p, hp, rfl⟩ := List.mem_map.1 hg
  exact rep.tinted_failedGroup (h.package (List.mem_of_mem_filter hp))
    fun t ht => h.test (List.mem_of_mem_filter ht)

theorem tinted_skipped (h : r.Texts Bare) :
    List.Forall₂ Tinted (r.skipped.flatMap rep.skippedGroup)
      (r.skipped.flatMap rep.uncolored.skippedGroup) := by
  refine forall₂_flatMap fun g hg => ?_
  obtain ⟨p, hp, rfl⟩ := List.mem_map.1 hg
  exact rep.tinted_skippedGroup (h.package (List.mem_of_mem_filter hp))
    fun t ht => h.test (List.mem_of_mem_filter ht)

theorem tinted_slow (h : r.Bare) (width : Nat) :
    List.Forall₂ Tinted ((r.slowTests rep.slowThreshold).map (rep.slowLine width))
      ((r.slowTests rep.slowThreshold).map (rep.uncolored.slowLine width)) := by
  refine forall₂_map fun t ht => ?_
  have shown := List.mem_of_mem_filter (List.mem_mergeSort.1 ht)
  obtain ⟨p, _, ht⟩ := List.mem_flatMap.1 shown
  exact rep.tinted_slowLine width (h.packageName ht) (h.texts.test ht).1

theorem tinted_report (h : r.Bare) :
    List.Forall₂ Tinted (rep.lines r) (rep.uncolored.lines r) := by
  have slowTitle : Bare rep.slowTitle :=
    Text.bare_append.2 ⟨Text.bare_append.2 ⟨by decide, (Text.printed_short _).bare⟩, by decide⟩
  have failures := rep.tinted_section? (by decide : Bare "Failures".toList)
    (rep.tinted_failures h.texts)
  have skipped := rep.tinted_section? (by decide : Bare "Skipped".toList)
    (rep.tinted_skipped h.texts)
  have slow := rep.tinted_section? slowTitle
    (rep.tinted_slow h (slowWidth (r.slowTests rep.slowThreshold)))
  have packages := rep.tinted_heading (by decide : Bare "Packages".toList)
  have overall := rep.tinted_heading (by decide : Bare "Overall Results".toList)
  have blank_line : List.Forall₂ Tinted [[]] [[]] := .cons .nil .nil
  have result : List.Forall₂ Tinted [rep.resultLine r] [rep.uncolored.resultLine r] :=
    .cons (rep.tinted_resultLine r) .nil
  have sections := List.rel_append (List.rel_append failures skipped) slow
  have ran := List.rel_append (List.rel_append (List.rel_append sections packages)
    (rep.tinted_packageLines h.texts)) blank_line
  exact List.rel_append (List.rel_append ran overall) result

end Sections

theorem tinted_text {r : Run} (h : r.Bare) : Tinted (rep.text r) (rep.uncolored.text r) := by
  have newline : Tinted ['\n'] ['\n'] := Bare.tinted (by decide)
  have all := rep.tinted_report h
  rw [text, text]
  generalize rep.lines r = ts, rep.uncolored.lines r = ls at all
  induction all with
  | nil => exact .nil
  | cons first _ ih => exact (first.append newline).append ih

end Reporter

/-- Colour never changes what is shown. Whatever the look, a frame and a report of a run without
escape sequences of its own are, once their style sequences are deleted, those without colour. -/
theorem Run.colour_only_tints {r : Run} (h : r.Bare) :
    (∀ (v : Viewer) (m : Moment) (width height : Nat), ∃ frame,
      v.frame? m width height r = some frame ∧
        v.uncolored.frame? m width height r = some (Text.unstyled frame)) ∧
    ∀ rep : Reporter, Text.unstyled (rep.text r) = rep.uncolored.text r := by
  constructor
  · intro v m width height
    obtain ⟨frame, shown⟩ := v.exists_frame?_of_texts m width h.clean height
    have tinted := v.tinted_frame? m width h.texts height
    rw [shown] at tinted
    generalize v.uncolored.frame? m width height r = plain at tinted
    cases tinted with
    | some tinted => exact ⟨frame, shown, congrArg some tinted.unstyled.symm⟩
  · exact fun rep => (rep.tinted_text h).unstyled

theorem Run.colour_only_tints_narrow :
    let events : List (Timestamp × TestEvent) :=
      [(default, ⟨default, .run, "p", "T", "", none⟩),
        (default, ⟨default, .output, "p", "T", "oops\n", none⟩),
        (default, ⟨default, .fail, "p", "T", "", none⟩)]
    let v : Viewer := ⟨⟨true, true⟩, 6, .heuristic⟩
    let rep : Reporter := ⟨⟨true, true⟩, .zero⟩
    ∃ r ∈ (History.empty.pushAll .live events).runs,
      (∃ frame, v.frame? ⟨default, none⟩ 12 24 r = some frame ∧
        v.uncolored.frame? ⟨default, none⟩ 12 24 r = some (Text.unstyled frame)) ∧
      Text.unstyled (rep.text r) = rep.uncolored.text r := by
  intro events v rep
  have bare : ∀ e ∈ events, e.2.Texts Text.Bare := by
    intro e he
    simp only [events, List.mem_cons, List.not_mem_nil, or_false] at he
    rcases he with rfl | rfl | rfl
    all_goals constructor <;> decide
  obtain ⟨r, hr⟩ : ∃ r, r ∈ (History.empty.pushAll .live events).runs := ⟨_, List.mem_cons_self⟩
  obtain ⟨frames, reports⟩ := Run.colour_only_tints (History.bare_pushAll .live bare r hr)
  exact ⟨r, hr, frames v ⟨default, none⟩ 12 24, reports rep⟩

end TestWatch
