import TestWatch.Proofs.Session.Reports
import TestWatch.Proofs.Session.Screen
import Mathlib.Data.List.Induction

/-!
# Frames leave nothing behind

On a terminal a display removes the frame on the screen before it writes anything else. It knows the
frame by its number of rows only, so what it shows depends on all that it wrote before: the texts
that were committed, and the last frame below them, if nothing was committed since. Between calls
`Display.Shows` says so of a screen that was fed with everything that was written.
-/

namespace TestWatch

def Call.frame? : Call → Option (List Char)
  | .draw frame => some frame
  | .commit _ => none

/-- Rows of printable characters. A frame does not end with a newline, and has at most 65536 rows,
one more than the cursor goes up at once. -/
def Call.Plain : Call → Prop
  | .draw frame =>
    Text.PrintedRows frame ∧ frame.getLast? ≠ some '\n' ∧ frame.count '\n' < 65536
  | .commit text => Text.PrintedRows text

instance : DecidablePred Call.Plain
  | .draw _ => inferInstanceAs (Decidable (_ ∧ _ ∧ _))
  | .commit text => inferInstanceAs (Decidable (Text.PrintedRows text))

namespace Display

def kept (calls : List Call) : List Char := (Session.committed calls).flatMap closed

/-- The last frame, if it was drawn after the last text was committed: then it is the last call. -/
def lastFrame (calls : List Call) : List Char := (calls.getLast?.bind Call.frame?).getD []

@[simp] theorem kept_append (cs ds : List Call) : kept (cs ++ ds) = kept cs ++ kept ds := by
  simp [kept, Session.committed_append]

theorem kept_draw (frame : List Char) : kept [.draw frame] = [] := rfl

theorem kept_commit (text : List Char) : kept [.commit text] = closed text :=
  List.flatMap_singleton _ _

theorem exists_closed (text : List Char) : ∃ t, closed text = t ++ ['\n'] := by
  unfold closed
  split
  · rename_i ends
    exact ⟨text.dropLast, (List.dropLast_append_getLast? '\n' ends).symm⟩
  · exact ⟨text, rfl⟩

theorem printedRows_closed {text : List Char} (h : Text.PrintedRows text) :
    Text.PrintedRows (closed text) := by
  unfold closed
  split
  · exact h
  · intro c hc
    rcases List.mem_append.1 hc with hc | hc
    · exact h c hc
    · exact .inl (List.mem_singleton.1 hc)

theorem beginsRow_append_closed (above text : List Char) :
    Screen.BeginsRow (above ++ closed text) := by
  obtain ⟨t, eq⟩ := exists_closed text
  exact .inr ⟨above ++ t, by rw [eq, List.append_assoc]⟩

/-- What is committed last begins a row below it, and so does the start. -/
theorem beginsRow_kept (calls : List Call) : Screen.BeginsRow (kept calls) := by
  unfold kept
  induction Session.committed calls using List.reverseRecOn with
  | nil => exact .inl rfl
  | append_singleton texts text _ =>
    rw [List.flatMap_append, List.flatMap_singleton]
    exact beginsRow_append_closed _ text

/-- A frame has one row more than newlines, also if it is empty. -/
theorem max_rowCount {frame : List Char} (h : frame.getLast? ≠ some '\n') :
    max 1 (rowCount frame) = frame.count '\n' + 1 := by
  unfold rowCount
  by_cases empty : frame = []
  · simp [empty]
  · rw [if_neg (by simp [empty, h])]
    omega

/-- The sink takes everything, and a screen that is fed with what was written shows a text and below
it a frame, or none, of which the display knows the rows. -/
structure Shows (text : List Char) (frame? : Option (List Char)) (d : Display) : Prop where
  terminal : d.terminal = true
  room : d.room = none
  screen : Screen.blank.feed d.written = .showing (text ++ frame?.getD [])
  rows : d.rows = (frame?.map fun frame => frame.count '\n' + 1).getD 0
  reach : d.rows ≤ maxUp + 1

theorem write_eq {d : Display} (h : d.room = none) (cs : List Char) :
    d.write cs = ({ d with written := d.written ++ cs }, true) := by
  simp [write, h]

section Shows

variable {text : List Char} {frame? : Option (List Char)} {d : Display}

theorem Shows.clear (h : d.Shows text frame?) (above : Screen.BeginsRow text) :
    d.clear.2 = true ∧ d.clear.1.Shows text none := by
  unfold Display.clear
  cases frame? with
  | none =>
    have no_row : d.rows = 0 := h.rows
    rw [if_pos no_row]
    exact ⟨rfl, h⟩
  | some frame =>
    have rows : d.rows = frame.count '\n' + 1 := h.rows
    rw [if_neg (by omega), write_eq h.room]
    refine ⟨rfl, h.terminal, h.room, ?_, rfl, Nat.zero_le _⟩
    change Screen.blank.feed (d.written ++ clearing d.rows) = .showing (text ++ [])
    rw [Screen.feed_append, h.screen, Screen.feed_clearing rfl (by omega) h.reach, rows,
      Nat.add_sub_cancel, List.append_nil]
    exact Screen.erase_showing above frame

theorem Shows.draw (h : d.Shows text frame?) (above : Screen.BeginsRow text) {frame : List Char}
    (plain : (Call.draw frame).Plain) :
    (d.draw frame).2 = true ∧ (d.draw frame).1.Shows text (some frame) := by
  obtain ⟨printed, last, reach⟩ := plain
  obtain ⟨done, cleared⟩ := h.clear above
  have rows := max_rowCount last
  have drawn : d.draw frame =
      ({ d.clear.1 with
          written := d.clear.1.written ++ frame, rows := max 1 (rowCount frame) }, true) := by
    simp [Display.draw, h.terminal, done, write_eq cleared.room]
  rw [drawn]
  refine ⟨rfl, cleared.terminal, cleared.room, ?_, rows, ?_⟩
  · change Screen.blank.feed (d.clear.1.written ++ frame) = _
    rw [Screen.feed_append, cleared.screen, Screen.feed_showing printed]
    simp
  · rw [rows]
    exact reach

theorem Shows.commit (h : d.Shows text frame?) (above : Screen.BeginsRow text) {more : List Char}
    (plain : (Call.commit more).Plain) :
    (d.commit more).2 = true ∧ (d.commit more).1.Shows (text ++ closed more) none := by
  obtain ⟨done, cleared⟩ := h.clear above
  have committed : d.commit more =
      ({ d.clear.1 with written := d.clear.1.written ++ closed more }, true) := by
    simp [Display.commit, done, write_eq cleared.room]
  rw [committed]
  refine ⟨rfl, cleared.terminal, cleared.room, ?_, cleared.rows, cleared.reach⟩
  change Screen.blank.feed (d.clear.1.written ++ closed more) = _
  rw [Screen.feed_append, cleared.screen, Screen.feed_showing (printedRows_closed plain)]
  simp

end Shows

theorem shows_start : (start true none).Shows [] none :=
  ⟨rfl, rfl, Screen.showing_nil.symm, rfl, Nat.zero_le _⟩

theorem run_append (d : Display) {cs : List Call} (done : (d.run cs).2 = true) (ds : List Call) :
    d.run (cs ++ ds) = (d.run cs).1.run ds := by
  induction cs generalizing d with
  | nil => rfl
  | cons c cs ih =>
    cases hc : (d.call c).2 with
    | false => simp [run, hc] at done
    | true =>
      simp only [run, hc, ↓reduceIte, List.cons_append] at done ⊢
      exact ih (d.call c).1 done

/-- After any calls the screen shows the committed texts, and the last frame if one is to be
seen. -/
theorem shows_run (calls : List Call) (plain : ∀ c ∈ calls, c.Plain) :
    ((start true none).run calls).2 = true ∧
      ((start true none).run calls).1.Shows (kept calls) (calls.getLast?.bind Call.frame?) := by
  induction calls using List.reverseRecOn with
  | nil => exact ⟨rfl, shows_start⟩
  | append_singleton cs c ih =>
    obtain ⟨done, shows⟩ := ih fun d hd => plain d (List.mem_append_left _ hd)
    have last : c.Plain := plain c (by simp)
    have call_last : ((start true none).run (cs ++ [c])) = ((start true none).run cs).1.call c := by
      rw [run_append _ done]
      cases hc : ((start true none).run cs).1.call c with
      | mk d ok => cases ok <;> simp [run, hc]
    rw [call_last, kept_append, List.getLast?_concat, Option.bind_some]
    cases c with
    | draw frame =>
      have drawn := shows.draw (beginsRow_kept cs) last
      rw [kept_draw, List.append_nil]
      exact drawn
    | commit text =>
      have committed := shows.commit (beginsRow_kept cs) last
      rw [kept_commit]
      exact committed

/-- Without a terminal no frame is written, so there is never one to remove. -/
theorem run_of_no_terminal {d : Display} (terminal : d.terminal = false) (rows : d.rows = 0)
    (room : d.room = none) (calls : List Call) :
    d.run calls = ({ d with written := d.written ++ kept calls }, true) := by
  induction calls generalizing d with
  | nil => simp [run, kept, Session.committed]
  | cons c cs ih =>
    have split : kept (c :: cs) = kept [c] ++ kept cs := kept_append [c] cs
    cases c with
    | draw frame =>
      have dropped : d.call (.draw frame) = (d, true) := by simp [call, draw, terminal]
      rw [run, dropped, split, kept_draw]
      exact ih terminal rows room
    | commit text =>
      have written : d.call (.commit text) =
          ({ d with written := d.written ++ closed text }, true) := by
        simp [call, commit, clear, rows, write_eq room]
      rw [run, written, split, kept_commit, ← List.append_assoc]
      exact ih terminal rows room

/-- Frames are replaced without a trace. On a terminal, after each of some calls with plain texts,
all that was written leaves on an empty screen the committed texts so far, each ended by a newline,
and the last frame if it was drawn after them; nothing else. Without a terminal the committed texts
are all that is written. -/
theorem frames_replaced (calls : List Call) :
    ((∀ c ∈ calls, c.Plain) → ∀ sofar, sofar <+: calls →
      ((start true none).run sofar).2 = true ∧
        Screen.blank.feed ((start true none).run sofar).1.written =
          .showing (kept sofar ++ lastFrame sofar)) ∧
    (start false none).run calls = (⟨false, 0, none, kept calls⟩, true) := by
  constructor
  · intro plain sofar earlier
    obtain ⟨done, shows⟩ := shows_run sofar fun c hc => plain c (earlier.subset hc)
    exact ⟨done, shows.screen⟩
  · exact run_of_no_terminal rfl rfl rfl calls

/-- A frame with a blank row, a shorter one in its place, a text, and a frame below it. -/
theorem frames_replaced_shorter_frame :
    let calls : List Call :=
      [.draw "a\n\nb".toList, .draw "c".toList, .commit "x".toList, .draw "d\ne".toList]
    (∀ c ∈ calls, c.Plain) ∧
      Screen.blank.feed ((start true none).run calls).1.written = .showing "x\nd\ne".toList := by
  intro calls
  have plain : ∀ c ∈ calls, c.Plain := by decide
  obtain ⟨_, screen⟩ := (frames_replaced calls).1 plain calls List.prefix_rfl
  exact ⟨plain, screen⟩

end Display
end TestWatch
