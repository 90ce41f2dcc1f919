import TestWatch.Frame.Columns
import TestWatch.Proofs.Text.Clean

/-!
# Texts without control characters

Everything that a frame or a report adds to the texts of a run is printable: numbers, elapsed
times, icons, rules and the words for statuses. So these neither break a line nor begin an escape
sequence.
-/

namespace TestWatch.Text

/-- No control character. -/
def Printable (c : Char) : Prop := 0x20 ≤ c.toNat ∧ Terminal.within 0x7F 0x9F c = false

instance (c : Char) : Decidable (Printable c) := inferInstanceAs (Decidable (_ ∧ _))

theorem Printable.ne {c d : Char} (h : Printable c) (hd : ¬ Printable d) : c ≠ d := by
  rintro rfl
  exact hd h

theorem Printable.plain {c : Char} (h : Printable c) : Plain c :=
  ⟨h.ne (by decide), h.ne (by decide)⟩

def Printed (cs : List Char) : Prop := ∀ c ∈ cs, Printable c

instance (cs : List Char) : Decidable (Printed cs) := List.decidableBAll Printable cs

@[simp] theorem printed_cons {c : Char} {cs : List Char} :
    Printed (c :: cs) ↔ Printable c ∧ Printed cs := List.forall_mem_cons

@[simp] theorem printed_append {as bs : List Char} :
    Printed (as ++ bs) ↔ Printed as ∧ Printed bs := List.forall_mem_append

theorem printed_replicate {c : Char} (h : Printable c) (n : Nat) :
    Printed (List.replicate n c) := by
  intro d hd
  rwa [List.eq_of_mem_replicate hd]

theorem printed_decimal (n : Nat) : Printed (decimal n) := by
  intro c hc
  have := toNat_of_isDigit (isDigit_of_mem_decimal hc)
  simp only [Printable, Terminal.within, Bool.and_eq_false_iff, decide_eq_false_iff_not]
  omega

theorem printed_padLeft {cs : List Char} (h : Printed cs) (width : Nat) :
    Printed (padLeft width cs) :=
  printed_append.2 ⟨printed_replicate (by decide) _, h⟩

theorem printed_short (d : Duration) : Printed d.short := by
  have tenths (x : Magnitude) : Printed x.tenths :=
    printed_append.2 ⟨printed_decimal _, printed_cons.2 ⟨by decide, printed_decimal _⟩⟩
  unfold Duration.short
  split
  · decide
  · split
    · exact printed_append.2 ⟨tenths _, by decide⟩
    · exact printed_append.2 ⟨tenths _, by decide⟩

theorem printed_rule (look : Look) (width : Nat) : Printed (look.rule width) := by
  unfold Look.rule
  split
  · exact printed_replicate (by decide) _
  · exact printed_replicate (by decide) _

theorem printable_icon (look : Look) (tick : Nat) (s : Status) : Printable (look.icon tick s) := by
  have spinner : Printable (look.spinnerFrame tick) := by
    have all : Printed look.spinner := by
      unfold Look.spinner
      split <;> decide
    unfold Look.spinnerFrame
    rw [List.getD_eq_getElem?_getD]
    cases h : look.spinner[tick % look.spinner.length]? with
    | none => decide
    | some c => exact all c (List.mem_of_getElem? h)
  unfold Look.icon
  split
  case h_5 => exact spinner
  case h_6 => exact spinner
  all_goals first | decide | (split <;> decide)

theorem printed_word (s : Status) : Printed s.word.toList := by
  cases s <;> decide

end TestWatch.Text
