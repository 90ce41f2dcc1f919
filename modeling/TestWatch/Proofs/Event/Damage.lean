import TestWatch.Proofs.Event.Spelling
import TestWatch.Proofs.Json.Soundness

/-!
# Damaged lines

A line that is an event is one object with nothing but blanks around it. If the line is cut off
before the closing brace, or if anything but blanks follows it, no event is left: such a line is
passed on as it is. So neither a stream that breaks off within a line nor two writers that share a
line make up an event.
-/

namespace TestWatch

namespace Json

/-- An object is complete with its closing brace, whatever follows. -/
theorem Spells.feeds_object {ms : List Member} {text : List Char}
    (h : Spells (.value (.object ms)) text) (rest : List Char) :
    Feeds (.value []) (text ++ rest) (.done (.object ms)) rest := by
  have opened (cs : List Char) : Feeds (.value []) ('{' :: cs) (.firstKey []) cs :=
    .mark (t := .openObject) (by decide) rfl cs
  cases h with
  | noMembers b =>
    rw [List.cons_append, List.append_assoc]
    exact ((opened _).trans (.blanks b _ _)).trans (.mark (t := .closeObject) (by decide) rfl rest)
  | object members =>
    have keyed : (State.firstKey []).AwaitsKey [] [] := fun _ => rfl
    rw [List.cons_append, List.append_assoc]
    exact (opened _).trans (members.fed rest keyed)

/-- After a complete value nothing but blanks may come. -/
theorem feed_done {v : Json} {cs : List Char} (h : ¬ Blanks cs) (fuel : Nat) :
    feed fuel (.done v) cs = none := by
  cases fuel with
  | zero => rfl
  | succ fuel =>
    rw [feed]
    split
    · rename_i all
      exact absurd (blanks_of_dropWhile all) h
    · split
      · rfl
      · rfl

theorem ofText?_append_of_object {ms : List Member} {text more : List Char}
    (h : Spells (.item (.object ms)) text) (dirty : ¬ Blanks more) :
    ofText? (text ++ more) = none := by
  cases h with
  | @item _ b₁ object b₂ before spelled after =>
    have left : ¬ Blanks (b₂ ++ more) :=
      fun all => dirty fun c hc => all c (List.mem_append_right _ hc)
    have fed := (Feeds.blanks before (.value []) _).trans (spelled.feeds_object (b₂ ++ more))
    obtain ⟨fuel, -, same⟩ := fed _ (Nat.lt_succ_self _)
    simp only [List.append_assoc]
    exact same.trans (feed_done left fuel)

end Json

namespace Line

def withoutEnding (line : String) : String :=
  String.ofList (Text.dropEndWhile isEnding line.toList)

theorem read_cases (line : String) :
    (∃ e ms, read line = .event e ∧ eventOf? ms = some e ∧
      Json.Spells (.item (.object ms)) (Text.dropEndWhile isEnding line.toList)) ∨
    read line = .raw (withoutEnding line) := by
  cases found : (Json.ofText? (Text.dropEndWhile isEnding line.toList)).bind ofJson? with
  | some e =>
    obtain ⟨j, value, event⟩ := Option.bind_eq_some_iff.1 found
    cases j with
    | object ms => exact .inl ⟨e, ms, by simp [read, found], event, Json.ofText?_eq_some_iff.1 value⟩
    | _ => cases event
  | none => exact .inr (by simp [read, found, withoutEnding])

theorem read_of_ofText? {line : String}
    (h : Json.ofText? (Text.dropEndWhile isEnding line.toList) = none) :
    read line = .raw (withoutEnding line) := by
  simp [read, h, withoutEnding]

section Damage

variable {text : String} {e : TestEvent}

theorem spells_of_read (h : read text = .event e) :
    ∃ ms, eventOf? ms = some e ∧
      Json.Spells (.item (.object ms)) (Text.dropEndWhile isEnding text.toList) := by
  rcases read_cases text with ⟨e', ms, read, event, spelled⟩ | raw
  · cases h.symm.trans read
    exact ⟨ms, event, spelled⟩
  · cases h.symm.trans raw

theorem read_append_of_event (h : read text = .event e) (more : String)
    (dirty : ∃ c ∈ more.toList, Json.Token.isSpace c = false) :
    read (text ++ more) = .raw (withoutEnding (text ++ more)) := by
  obtain ⟨ms, -, spelled⟩ := spells_of_read h
  obtain ⟨ending, -, whole⟩ := Text.dropEndWhile_append isEnding text.toList
  obtain ⟨c, hc, visible⟩ := dirty
  obtain ⟨before, after, split⟩ := List.append_of_mem hc
  have stays : isEnding c = false := by
    rw [← Bool.not_eq_true]
    intro ends
    simp [isSpace_of_isEnding ends] at visible
  have kept : Text.dropEndWhile isEnding (text ++ more).toList =
      Text.dropEndWhile isEnding text.toList ++
        (ending ++ (before ++ c :: Text.dropEndWhile isEnding after)) := by
    have cut := Text.dropEndWhile_append_cons stays (text.toList ++ before) after
    rw [String.toList_append, split, ← List.append_assoc, cut, ← List.append_assoc, whole,
      List.append_assoc]
  apply read_of_ofText?
  rw [kept]
  refine Json.ofText?_append_of_object spelled fun all => ?_
  have blank := all c (by simp)
  simp [visible] at blank

theorem exists_closing_brace {ms : List Json.Member}
    (h : Json.Spells (.item (.object ms)) (Text.dropEndWhile isEnding text.toList)) :
    ∃ before body after, text.toList = (before ++ '{' :: body) ++ '}' :: after ∧
      Json.Blanks before ∧ Json.Blanks after ∧
      Json.Spells (.value (.object ms)) ('{' :: (body ++ ['}'])) := by
  obtain ⟨ending, ends, whole⟩ := Text.dropEndWhile_append isEnding text.toList
  generalize Text.dropEndWhile isEnding text.toList = line at h whole
  cases h with
  | @item _ b₁ object b₂ before spelled after =>
    have closed : ∃ body, object = '{' :: (body ++ ['}']) := by
      cases spelled with
      | noMembers | object => exact ⟨_, rfl⟩
    obtain ⟨body, rfl⟩ := closed
    refine ⟨b₁, body, b₂ ++ ending, by simp [← whole], before, ?_, spelled⟩
    intro c hc
    exact (List.mem_append.1 hc).elim (after c) fun hc => isSpace_of_isEnding (ends c hc)

/-- A line that is an event holds one object, with blanks around it. Every part of the line that
ends before the closing brace is passed on as it is, and so is the line together with anything
after it that is not blank, but for the carriage returns and newlines at the end. -/
theorem damaged_lines_are_raw (h : read text = .event e) :
    ∃ members before body after,
      text.toList = (before ++ '{' :: body) ++ '}' :: after ∧ Json.Blanks before ∧
      Json.Blanks after ∧ Json.Spells (.value (.object members)) ('{' :: (body ++ ['}'])) ∧
      eventOf? members = some e ∧
      (∀ front : String, front.toList <+: before ++ '{' :: body →
        read front = .raw (withoutEnding front)) ∧
      ∀ more : String, (∃ c ∈ more.toList, Json.Token.isSpace c = false) →
        read (text ++ more) = .raw (withoutEnding (text ++ more)) := by
  obtain ⟨members, event, spelled⟩ := spells_of_read h
  obtain ⟨before, body, after, split, blank, blank', object⟩ := exists_closing_brace spelled
  refine ⟨members, before, body, after, split, blank, blank', object, event, ?_, ?_⟩
  · intro front cut
    -- If the part were an event, then the whole line, which goes on with a brace, would be none.
    rcases read_cases front with ⟨e', _, event', _⟩ | raw
    · obtain ⟨skipped, cut⟩ := cut
      have whole : text = front ++ String.ofList (skipped ++ '}' :: after) := by
        rw [← String.toList_inj, String.toList_append, String.toList_ofList, split, ← cut,
          List.append_assoc]
      have raw := read_append_of_event event' (.ofList (skipped ++ '}' :: after))
        ⟨'}', by simp, by decide⟩
      rw [← whole, h] at raw
      cases raw
    · exact raw
  · intro more dirty
    exact read_append_of_event h more dirty

end Damage

/-- Braces and quotes in a text of the object do not end it. The line loses its last brace, or a
second writer adds to it. -/
theorem damaged_lines_are_raw_brace_in_text :
    let text := " \x7b\"Time\":\"2024-01-02T03:04:05Z\",\"Action\":\"pass\"," ++
      "\"x\":[\"\\\"\x7d\"]\x7d \r\n"
    read text = .event ⟨⟨1704164645, 0, 0⟩, .pass, "", "", "", none⟩ ∧
      (∃ front after : String, text = front ++ "\x7d" ++ after ∧ Json.Blanks after.toList ∧
        read front = .raw (withoutEnding front)) ∧
      read (text ++ "\x7d\n") = .raw (withoutEnding (text ++ "\x7d\n")) := by
  intro text
  have event : read text = .event ⟨⟨1704164645, 0, 0⟩, .pass, "", "", "", none⟩ := by
    decide +kernel
  obtain ⟨_, before, body, after, split, _, blank, _, _, cut, continued⟩ :=
    damaged_lines_are_raw event
  refine ⟨event, ⟨.ofList (before ++ '{' :: body), .ofList after, ?_, ?_, ?_⟩, ?_⟩
  · rw [← String.toList_inj, split]
    simp
  · simpa using blank
  · apply cut
    simp
  · apply continued
    exact ⟨'}', by simp, by decide⟩

end Line

end TestWatch
