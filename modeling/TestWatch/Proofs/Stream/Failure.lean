import TestWatch.Proofs.Stream.Exchange
import Mathlib.Data.List.DropRight

/-!
# An input that breaks off

Where reading fails, the line that was begun is lost and nothing else. The lines that count are
those of the input up to its last newline, and the reader goes through them as if the input ended
there: a step looks at how the input ends only where it asks whether more is to come.
-/

namespace TestWatch

namespace Feed

/-- The bytes up to and with the last newline. -/
def wholeLines (bs : List UInt8) : List UInt8 := bs.rdropWhile (· != newline)

theorem wholeLines_of_none {bs : List UInt8} (h : ∀ b ∈ bs, (b == newline) = false) :
    wholeLines bs = [] := by
  rw [wholeLines, List.rdropWhile_eq_nil_iff]
  intro b hb
  rw [bne, h b hb, Bool.not_false]

theorem wholeLines_append_newline (front rest : List UInt8) :
    wholeLines (front ++ newline :: rest) = front ++ newline :: wholeLines rest := by
  have split : (front ++ newline :: rest).reverse = rest.reverse ++ newline :: front.reverse := by
    simp
  rw [wholeLines, wholeLines, List.rdropWhile, List.rdropWhile, split, List.dropWhile_append]
  by_cases none_left : (rest.reverse.dropWhile (· != newline)).isEmpty
  · rw [if_pos none_left, List.isEmpty_iff.1 none_left]
    simp
  · rw [if_neg none_left]
    simp

theorem filter_splitAfter (bs : List UInt8) :
    (splitAfter (· == newline) bs).filter (fun r => r.getLast? == some newline) =
      splitAfter (· == newline) (wholeLines bs) := by
  induction hn : bs.length using Nat.strong_induction_on generalizing bs with
  | _ n ih =>
    rcases exists_splitAfter (· == newline) bs with one_line | ⟨front, y, rest, hf, hy, rfl⟩
    · rw [wholeLines_of_none one_line]
      by_cases hb : bs = []
      · subst hb
        simp [splitAfter]
      · have unfinished : (bs.getLast? == some newline) = false := by
          rw [List.getLast?_eq_some_getLast hb]
          exact one_line _ (List.getLast_mem hb)
        rw [splitAfter_of_none one_line hb, List.filter_cons, unfinished]
        simp [splitAfter]
    · obtain rfl : y = newline := by simpa using hy
      have shorter : rest.length < n := by
        rw [← hn, List.length_append, List.length_cons]
        omega
      rw [wholeLines_append_newline, splitAfter_append hf hy, splitAfter_append hf hy,
        List.filter_cons_of_pos (by simp), ih _ shorter rest rfl]

/-- What counts of an input that breaks off are its whole lines. -/
theorem lines_of_failed (bs : List UInt8) (cause : String) (block block' : Option Nat) :
    (⟨bs, .failed cause, block⟩ : Feed).lines =
      (⟨wholeLines bs, .complete, block'⟩ : Feed).lines := by
  rw [lines, lines, rows, rows, filter_splitAfter]

end Feed

namespace Pipe

def endingWith (ending : Ending) (p : Pipe) : Pipe := { p with ending }

variable (pacing : Pacing) (ending : Ending) (p : Pipe)

theorem read_endingWith (a : Arrival) :
    (p.endingWith ending).read pacing a = (p.read pacing a).endingWith ending := by
  cases a with
  | wait => rfl
  | line l =>
    cases l with
    | raw text => rfl
    | event e =>
      simp only [read]
      rw [apply_ite (endingWith ending)]
      rfl

/-- By itself a reader does the same whether its input has come to an end or breaks off. -/
theorem advance?_endingWith (closed : p.ending ≠ .pending) (closed' : ending ≠ .pending) :
    (p.endingWith ending).advance? pacing = (p.advance? pacing).map (endingWith ending) := by
  unfold advance?
  cases phase : p.phase with
  | reading =>
    cases ahead : p.ahead with
    | nil => simp [endingWith, phase, ahead, closed, closed']
    | cons a rest =>
      have same := read_endingWith pacing ending { p with ahead := rest } a
      simpa [endingWith, phase, ahead] using same
  | sending e =>
    simp only [endingWith, phase]
    split
    · rfl
    · split <;> rfl
  | loading | pausing _ _ | finished | stuck | abandoned => simp [endingWith, phase]

theorem wake_endingWith : (p.endingWith ending).wake = p.wake.endingWith ending := by
  cases phase : p.phase <;> simp [wake, endingWith, phase, offer]

theorem resume_endingWith : (p.endingWith ending).resume = p.resume.endingWith ending := by
  cases phase : p.phase <;> simp [resume, endingWith, phase]

end Pipe

namespace Exchange

def endingWith (ending : Ending) (x : Exchange) : Exchange := ⟨x.pipe.endingWith ending, x.taken⟩

variable {pacing : Pacing} {ending : Ending} {x y : Exchange}

theorem Step.ending_eq (h : Step pacing x y) : y.pipe.ending = x.pipe.ending := by
  cases h with
  | @advance p q taken hq =>
    rcases Pipe.advance?_cases hq with ⟨a, rest, _, _, rfl⟩ | ⟨_, _, rfl⟩ | ⟨e, _, _, rfl⟩ |
        ⟨e, _, _, rfl⟩
    · have same := congrArg Pipe.ending
        (Pipe.read_endingWith pacing p.ending { p with ahead := rest } a)
      exact same
    all_goals rfl
  | @wake p d e taken phase =>
    have same := congrArg Pipe.ending (Pipe.wake_endingWith p.ending p)
    exact same
  | @resume p taken changed =>
    have same := congrArg Pipe.ending (Pipe.resume_endingWith p.ending p)
    exact same
  | receive _ => rfl

theorem Step.endingWith (h : Step pacing x y) (closed : x.pipe.ending ≠ .pending)
    (closed' : ending ≠ .pending) : Step pacing (x.endingWith ending) (y.endingWith ending) := by
  cases h with
  | @advance p q taken hq =>
    refine .advance ?_
    rw [Pipe.advance?_endingWith pacing ending p closed closed', hq]
    rfl
  | @wake p d e taken phase =>
    have step : Step pacing ⟨p.endingWith ending, taken⟩ _ := .wake phase
    rwa [Pipe.wake_endingWith] at step
  | @resume p taken changed =>
    have changed' : (p.endingWith ending).resume ≠ p.endingWith ending := by
      intro same
      rw [Pipe.resume_endingWith] at same
      have back := congrArg (Pipe.endingWith p.ending) same
      exact changed ((Pipe.resume_endingWith p.ending p).trans back)
    have step : Step pacing ⟨p.endingWith ending, taken⟩ _ := .resume changed'
    rwa [Pipe.resume_endingWith] at step
  | receive queued => exact .receive queued

theorem sound_start (pacing : Pacing) (f : Feed) :
    (⟨(Pipe.ofFeed f).endingWith .complete, []⟩ : Exchange).Sound pacing f.lines := by
  obtain ⟨events, rawLines, counted⟩ := Pipe.accounts_ofFeed f
  refine ⟨⟨events, rawLines, counted⟩, ⟨rfl, rfl, ?_, ?_⟩, Nat.zero_le _⟩
  · simp [Pipe.endingWith, Pipe.ofFeed]
  · simp [Pipe.endingWith, Pipe.ofFeed]

/-- Of an input that is not left open, every step of reader and receiver is one of an input that
comes to its end with the same lines. -/
theorem Steps.sound {f : Feed} (closed : f.ending ≠ .pending) (accepted : pacing.rawRefused = false)
    (run : Steps pacing ⟨Pipe.ofFeed f, []⟩ x) :
    x.pipe.ending = f.ending ∧ (x.endingWith .complete).Sound pacing f.lines := by
  induction run with
  | refl => exact ⟨rfl, sound_start pacing f⟩
  | tail _ step ih =>
    obtain ⟨ending, sound⟩ := ih
    have simulated := step.endingWith (ending ▸ closed) (by simp : Ending.complete ≠ .pending)
    exact ⟨step.ending_eq.trans ending, sound.step accepted simulated⟩

section Closed

variable {f : Feed} (closed : f.ending ≠ .pending) (accepted : pacing.rawRefused = false)
include closed accepted

/-- Short of the end there is a step, also where the input breaks off. -/
theorem Steps.over_or_step (run : Steps pacing ⟨Pipe.ofFeed f, []⟩ x) :
    x.Over ∨ ∃ y, Step pacing x y := by
  obtain ⟨ending, sound⟩ := run.sound closed accepted
  rcases sound.over_or_step with ended | ⟨y, step⟩
  · exact .inl ended
  · have back := step.endingWith (by simp [endingWith, Pipe.endingWith]) (ending ▸ closed)
    exact .inr ⟨_, back⟩

/-- At the end everything has been handed over that the whole lines hold. -/
theorem Steps.of_over (run : Steps pacing ⟨Pipe.ofFeed f, []⟩ x) (ended : x.Over) :
    x.taken = f.lines.filterMap Line.event? ∧ x.pipe.rawLines = f.lines.filterMap Line.raw? ∧
      x.pipe.events = x.taken.length ∧ x.pipe.ending = f.ending := by
  obtain ⟨ending, sound⟩ := run.sound closed accepted
  obtain ⟨taken, rawLines, counted⟩ := sound.of_over ended
  exact ⟨taken, rawLines, counted, ending⟩

end Closed

end Exchange

end TestWatch
