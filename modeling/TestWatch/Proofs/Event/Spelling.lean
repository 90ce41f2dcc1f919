import TestWatch.Event.Line
import TestWatch.Proofs.Json.Completeness
import TestWatch.Proofs.Time.Spelling

/-!
# Every spelling of an event is that event

An event is spelled as one JSON object on a line. Its members may come in any order and between
other members, texts that are empty may be left out, and each value may be written in all the ways
that JSON and the format of timestamps allow. All of these lines are read as the same event.
-/

namespace TestWatch

namespace TestEvent

def textMember (name text : String) : Json.Member := (some name.toList, .string (some text.toList))

/-- A text may be left out if it is empty. -/
inductive Optionally (name text : String) : List Json.Member → Prop
  | written : Optionally name text [textMember name text]
  | leftOut : text = "" → Optionally name text []

inductive NoElapsed : List Json.Member → Prop
  | null : NoElapsed [(some "Elapsed".toList, .null)]
  | leftOut : NoElapsed []

/-- A member that is none of an event's, under a key that is a text. -/
def IsOther (m : Json.Member) : Prop := ∃ key, m.1 = some key ∧ String.ofList key ∉ Line.memberNames

inductive Describes (e : TestEvent) (ms : List Json.Member) : Prop
  | intro {time : String} {package test output elapsed others : List Json.Member} :
      e.time.Spells time.toList → Optionally "Package" e.package package →
      Optionally "Test" e.test test → Optionally "Output" e.output output → e.elapsed = none →
      NoElapsed elapsed → (∀ m ∈ others, IsOther m) →
      ms.Perm (textMember "Time" time :: textMember "Action" e.action.name ::
        (package ++ (test ++ (output ++ (elapsed ++ others))))) →
      Describes e ms

inductive Spells (e : TestEvent) : List Char → Prop
  | intro {ms : List Json.Member} {text ending : List Char} :
      Describes e ms → Json.Spells (.item (.object ms)) text →
      (∀ c ∈ ending, Line.isEnding c = true) → Spells e (text ++ ending)

theorem valuesOf_append (key : List Char) (ms ms' : List Json.Member) :
    Json.valuesOf key (ms ++ ms') = Json.valuesOf key ms ++ Json.valuesOf key ms' := by
  simp [Json.valuesOf]

theorem valuesOf_eq_nil {key : List Char} {ms : List Json.Member} (h : ∀ m ∈ ms, m.1 ≠ some key) :
    Json.valuesOf key ms = [] := by
  simpa [Json.valuesOf] using h

/-- The order of members plays no part where a key comes once at most. -/
theorem valuesOf_perm {key : List Char} {ms ms' : List Json.Member} (h : ms.Perm ms')
    (once : (Json.valuesOf key ms').length ≤ 1) : Json.valuesOf key ms = Json.valuesOf key ms' := by
  have perm : (Json.valuesOf key ms).Perm (Json.valuesOf key ms') := (h.filter _).map _
  cases values : Json.valuesOf key ms' with
  | nil => rwa [values, List.perm_nil] at perm
  | cons v vs =>
    have single : vs = [] := by
      rw [values, List.length_cons] at once
      exact List.length_eq_zero_iff.1 (by omega)
    rwa [values, single, List.perm_singleton, ← single] at perm

section Optionally

variable {name text : String} {ms : List Json.Member}

theorem Optionally.key (h : Optionally name text ms) : ∀ m ∈ ms, m.1 = some name.toList := by
  cases h with
  | written => simp [textMember]
  | leftOut => simp

theorem Optionally.values (h : Optionally name text ms) :
    (Json.valuesOf name.toList ms).length ≤ 1 ∧
      Line.optional? "" Line.text? (Json.valuesOf name.toList ms) = some text := by
  cases h with
  | written => simp [Json.valuesOf, textMember, Line.optional?, Line.required?, Line.text?]
  | leftOut empty => simp [Json.valuesOf, Line.optional?, empty]

theorem NoElapsed.key (h : NoElapsed ms) : ∀ m ∈ ms, m.1 = some "Elapsed".toList := by
  cases h <;> simp

theorem NoElapsed.values (h : NoElapsed ms) :
    (Json.valuesOf "Elapsed".toList ms).length ≤ 1 ∧
      Line.optional? none Line.elapsed? (Json.valuesOf "Elapsed".toList ms) = some none := by
  cases h with
  | null => simp [Json.valuesOf, Line.optional?, Line.required?, Line.elapsed?]
  | leftOut => simp [Json.valuesOf, Line.optional?]

end Optionally

theorem valuesOf_others {name : String} {ms : List Json.Member} (others : ∀ m ∈ ms, IsOther m)
    (known : name ∈ Line.memberNames) : Json.valuesOf name.toList ms = [] := by
  apply valuesOf_eq_nil
  intro m hm same
  obtain ⟨key, eq, unknown⟩ := others m hm
  rw [eq, Option.some.injEq] at same
  rw [same, String.ofList_toList] at unknown
  exact unknown known

/-- Members in groups, each under a name of its own. -/
theorem valuesOf_groups {name : String} {part : List Json.Member} :
    ∀ {groups : List (String × List Json.Member)}, (groups.map Prod.fst).Nodup →
      (∀ g ∈ groups, ∀ m ∈ g.2, m.1 = some g.1.toList) → (name, part) ∈ groups →
      Json.valuesOf name.toList (groups.flatMap Prod.snd) = Json.valuesOf name.toList part := by
  have other {groups : List (String × List Json.Member)}
      (keyed : ∀ g ∈ groups, ∀ m ∈ g.2, m.1 = some g.1.toList)
      (absent : name ∉ groups.map Prod.fst) :
      Json.valuesOf name.toList (groups.flatMap Prod.snd) = [] := by
    apply valuesOf_eq_nil
    intro m hm same
    obtain ⟨g, hg, hm⟩ := List.mem_flatMap.1 hm
    rw [keyed g hg m hm, Option.some.injEq, String.toList_inj] at same
    exact absent (same ▸ List.mem_map_of_mem hg)
  intro groups nodup keyed found
  induction groups with
  | nil => cases found
  | cons g groups ih =>
    rw [List.map_cons, List.nodup_cons] at nodup
    rw [List.forall_mem_cons] at keyed
    rw [List.flatMap_cons, valuesOf_append]
    rcases List.mem_cons.1 found with rfl | found
    · rw [other keyed.2 nodup.1, List.append_nil]
    · have ne : g.1 ≠ name := by
        intro same
        exact nodup.1 (same ▸ List.mem_map_of_mem found)
      have none_here : Json.valuesOf name.toList g.2 = [] := by
        apply valuesOf_eq_nil
        intro m hm same
        rw [keyed.1 m hm, Option.some.injEq, String.toList_inj] at same
        exact ne same
      rw [none_here, List.nil_append, ih nodup.2 keyed.2 found]

section Groups

variable {groups : List (String × List Json.Member)} {others ms : List Json.Member}

/-- The members of one name, wherever they stand among the others. -/
theorem valuesOf_members {name : String} {part : List Json.Member}
    (names : groups.map Prod.fst = Line.memberNames)
    (keyed : ∀ g ∈ groups, ∀ m ∈ g.2, m.1 = some g.1.toList) (hothers : ∀ m ∈ others, IsOther m)
    (perm : ms.Perm (groups.flatMap Prod.snd ++ others)) (found : (name, part) ∈ groups)
    (once : (Json.valuesOf name.toList part).length ≤ 1) :
    Json.valuesOf name.toList ms = Json.valuesOf name.toList part := by
  have known : name ∈ Line.memberNames := names ▸ List.mem_map_of_mem found
  have same : Json.valuesOf name.toList (groups.flatMap Prod.snd ++ others) =
      Json.valuesOf name.toList part := by
    rw [valuesOf_append, valuesOf_others hothers known, List.append_nil,
      valuesOf_groups (names ▸ by decide) keyed found]
  rw [valuesOf_perm perm (same ▸ once), same]

theorem keysAreTexts_members (keyed : ∀ g ∈ groups, ∀ m ∈ g.2, m.1 = some g.1.toList)
    (hothers : ∀ m ∈ others, IsOther m) (perm : ms.Perm (groups.flatMap Prod.snd ++ others)) :
    Line.keysAreTexts ms = true := by
  simp only [Line.keysAreTexts, List.all_eq_true]
  intro m hm
  rw [perm.mem_iff, List.mem_append, List.mem_flatMap] at hm
  rcases hm with ⟨g, hg, hm⟩ | hm
  · rw [keyed g hg m hm]
    rfl
  · obtain ⟨key, eq, -⟩ := hothers m hm
    rw [eq]
    rfl

end Groups

theorem length_valuesOf_singleton (key : List Char) (m : Json.Member) :
    (Json.valuesOf key [m]).length ≤ 1 := by
  rw [Json.valuesOf, List.length_map]
  exact List.length_filter_le ..

theorem eventOf?_of_describes {e : TestEvent} {ms : List Json.Member} (h : Describes e ms) :
    Line.eventOf? ms = some e := by
  obtain @⟨time, package, test, output, elapsed, others, spelled, hp, ht, ho, no_elapsed, he,
    hothers, perm⟩ := h
  generalize hgroups : [("Time", [textMember "Time" time]),
    ("Action", [textMember "Action" e.action.name]), ("Package", package), ("Test", test),
    ("Output", output), ("Elapsed", elapsed)] = groups
  have members : textMember "Time" time :: textMember "Action" e.action.name ::
      (package ++ (test ++ (output ++ (elapsed ++ others)))) =
      groups.flatMap Prod.snd ++ others := by simp [← hgroups]
  have names : groups.map Prod.fst = Line.memberNames := hgroups ▸ rfl
  have keyed : ∀ g ∈ groups, ∀ m ∈ g.2, m.1 = some g.1.toList := by
    rw [← hgroups]
    simp only [List.forall_mem_cons]
    exact ⟨by simp [textMember], by simp [textMember], hp.key, ht.key, ho.key, he.key, by simp⟩
  rw [members] at perm
  have at_time : Json.valuesOf "Time".toList ms = Json.valuesOf "Time".toList _ :=
    valuesOf_members names keyed hothers perm (hgroups ▸ by simp)
      (length_valuesOf_singleton _ (textMember "Time" time))
  have at_action : Json.valuesOf "Action".toList ms = Json.valuesOf "Action".toList _ :=
    valuesOf_members names keyed hothers perm (hgroups ▸ by simp)
      (length_valuesOf_singleton _ (textMember "Action" e.action.name))
  have at_package : Json.valuesOf "Package".toList ms = Json.valuesOf "Package".toList package :=
    valuesOf_members names keyed hothers perm (hgroups ▸ by simp) hp.values.1
  have at_test : Json.valuesOf "Test".toList ms = Json.valuesOf "Test".toList test :=
    valuesOf_members names keyed hothers perm (hgroups ▸ by simp) ht.values.1
  have at_output : Json.valuesOf "Output".toList ms = Json.valuesOf "Output".toList output :=
    valuesOf_members names keyed hothers perm (hgroups ▸ by simp) ho.values.1
  have at_elapsed : Json.valuesOf "Elapsed".toList ms = Json.valuesOf "Elapsed".toList elapsed :=
    valuesOf_members names keyed hothers perm (hgroups ▸ by simp) he.values.1
  have time_read : Line.required? Line.time?
      (Json.valuesOf "Time".toList [textMember "Time" time]) = some e.time := by
    simp [Json.valuesOf, textMember, Line.required?, Line.time?, Line.text?,
      Timestamp.ofText?_of_spells spelled]
  have action_read : Line.required? Line.action?
      (Json.valuesOf "Action".toList [textMember "Action" e.action.name]) = some e.action := by
    simp [Json.valuesOf, textMember, Line.required?, Line.action?, Action.ofName_name]
  simp only [Line.eventOf?, keysAreTexts_members keyed hothers perm, if_true, at_time, at_action,
    at_package, at_test, at_output, at_elapsed, time_read, action_read, hp.values.2, ht.values.2,
    ho.values.2, he.values.2, Option.bind_eq_bind, Option.bind_some]
  rw [← no_elapsed]

theorem exists_spells_textMembers {fields : List (String × String)} (some_field : fields ≠ []) :
    ∃ text, Json.Spells (.value (.object (fields.map fun f => textMember f.1 f.2))) text := by
  apply Json.exists_spells_object
  · simpa using some_field
  · intro m hm
    obtain ⟨f, -, rfl⟩ := List.mem_map.1 hm
    exact ⟨_, _, rfl⟩

theorem exists_spells {e : TestEvent} (time : e.time.Plain) (no_elapsed : e.elapsed = none) :
    ∃ text, e.Spells text := by
  have spelled : e.time.Spells (String.ofList e.time.toText).toList := by
    rw [String.toList_ofList]
    exact Timestamp.spells_toText time
  have no_others : ∀ m ∈ ([] : List Json.Member), IsOther m := nofun
  have described : e.Describes ([("Time", String.ofList e.time.toText), ("Action", e.action.name),
      ("Package", e.package), ("Test", e.test), ("Output", e.output)].map fun f =>
        textMember f.1 f.2) :=
    .intro spelled .written .written .written no_elapsed .leftOut no_others (.refl _)
  obtain ⟨text, written⟩ := exists_spells_textMembers (List.cons_ne_nil _ _)
  have no_blanks : Json.Blanks [] := nofun
  have no_ending : ∀ c ∈ ([] : List Char), Line.isEnding c = true := nofun
  exact ⟨_, .intro described (.item no_blanks written no_blanks) no_ending⟩

end TestEvent

/-- Nothing is cut before a character that stays. -/
theorem Text.dropEndWhile_append_cons {p : Char → Bool} {c : Char} (h : p c = false)
    (before after : List Char) :
    dropEndWhile p (before ++ c :: after) = before ++ c :: dropEndWhile p after := by
  have stays : (c :: before.reverse).dropWhile p = c :: before.reverse :=
    List.dropWhile_cons_of_neg (by simp [h])
  rw [dropEndWhile, List.reverse_append, List.reverse_cons, List.append_assoc,
    List.singleton_append, List.dropWhile_append, stays]
  cases all : after.reverse.dropWhile p with
  | nil => simp [dropEndWhile, all]
  | cons d ds => simp [dropEndWhile, all]

theorem Text.mem_of_mem_dropEndWhile {p : Char → Bool} {c : Char} {cs : List Char}
    (h : c ∈ dropEndWhile p cs) : c ∈ cs := by
  obtain ⟨tail, -, whole⟩ := dropEndWhile_append p cs
  rw [← whole]
  exact List.mem_append_left _ h

namespace Line

theorem isSpace_of_isEnding {c : Char} (h : isEnding c = true) : Json.Token.isSpace c = true := by
  simp only [isEnding, Bool.or_eq_true, beq_iff_eq] at h
  rcases h with rfl | rfl <;> decide

/-- What is cut from the end of a line are blanks after the object. -/
theorem spells_dropEndWhile {ms : List Json.Member} {text ending : List Char}
    (h : Json.Spells (.item (.object ms)) text) (ends : ∀ c ∈ ending, isEnding c = true) :
    Json.Spells (.item (.object ms)) (Text.dropEndWhile isEnding (text ++ ending)) := by
  cases h with
  | @item _ b₁ object b₂ before spelled after =>
    have closed : ∃ body, object = body ++ ['}'] := by
      cases spelled with
      | noMembers => exact ⟨_, (List.cons_append ..).symm⟩
      | object => exact ⟨_, (List.cons_append ..).symm⟩
    obtain ⟨body, rfl⟩ := closed
    have left : Json.Blanks (Text.dropEndWhile isEnding (b₂ ++ ending)) := by
      intro c hc
      rcases List.mem_append.1 (Text.mem_of_mem_dropEndWhile hc) with hc | hc
      · exact after c hc
      · exact isSpace_of_isEnding (ends c hc)
    have cut : Text.dropEndWhile isEnding (b₁ ++ (body ++ ['}'] ++ b₂) ++ ending) =
        b₁ ++ (body ++ ['}'] ++ Text.dropEndWhile isEnding (b₂ ++ ending)) := by
      have kept := Text.dropEndWhile_append_cons (p := isEnding) (c := '}') (by decide)
        (b₁ ++ body) (b₂ ++ ending)
      simpa using kept
    rw [cut]
    exact .item before spelled left

theorem read_of_spells {e : TestEvent} {text : List Char} (h : e.Spells text) :
    read (String.ofList text) = .event e := by
  obtain ⟨described, spelled, ends⟩ := h
  have object := Json.ofText?_of_spells (spells_dropEndWhile spelled ends)
  have event : ofJson? (.object _) = some e := TestEvent.eventOf?_of_describes described
  simp [read, object, event]

/-- An event without elapsed time, at a time that the format can express, has spellings, and each
of them is read as that event. -/
theorem read_every_spelling {e : TestEvent} (time : e.time.Plain) (no_elapsed : e.elapsed = none) :
    (∃ text, e.Spells text) ∧
      ∀ text, e.Spells text → read (String.ofList text) = .event e :=
  ⟨e.exists_spells time no_elapsed, fun _ => read_of_spells⟩

theorem read_every_spelling_escaped :
    read ("\x7b \"Package\":\"\\u0070\",\"x\":[],\"Time\":\"2024-01-02t04:04:05+01:00\"," ++
        "\"Action\":\"pass\"\x7d\r\n") =
      .event ⟨⟨1704164645, 0, 3600⟩, .pass, "p", "", "", none⟩ := by
  have no_blanks : Json.Blanks [] := nofun
  have blank : Json.Blanks [' '] := by simp [Json.Blanks, Json.Token.isSpace]
  have plain (s : String) (h : ∀ c ∈ s.toList, 0x20 ≤ c.toNat ∧ c ≠ '"' ∧ c ≠ '\\') :
      Json.StringText (some s.toList) ('"' :: (s.toList ++ ['"'])) := .text (Json.quotes_self h)
  have member {k v : List Char} {j : Json} {b key : List Char} (before : Json.Blanks b)
      (hkey : Json.StringText (some k) key) (value : Json.Spells (.value j) v) :=
    Json.Spells.member before hkey no_blanks (.item no_blanks value no_blanks)
  have zone : Timestamp.ZoneText 3600 ('+' :: Timestamp.clockText 1 0) :=
    .ahead (by decide : 1 < 24) (by decide : 0 < 60)
  have date : (⟨2024, 1, 2⟩ : Date).Valid := by decide
  have time_text : "2024-01-02t04:04:05+01:00".toList = Timestamp.dateText ⟨2024, 1, 2⟩ ++ 't' ::
      (Timestamp.clockText 4 4 ++ ':' :: (paddedDecimal 2 5 ++ ([] ++
        '+' :: Timestamp.clockText 1 0))) := by decide +kernel
  have time : Timestamp.Spells ⟨1704164645, 0, 3600⟩ "2024-01-02t04:04:05+01:00".toList := by
    rw [time_text]
    exact .intro date (by decide) (by decide) (by decide) (by decide) (by decide) (by decide) .none
      zone (by decide)
  have escaped : Json.StringText (some ['p'])
      ('"' :: (Json.hexEscape '0' '0' '7' '0' [] ++ ['"'])) :=
    .text (.number (by decide) .nil)
  have other : ∀ m ∈ [(some ['x'], Json.array [])], TestEvent.IsOther m := by
    simp only [List.forall_mem_singleton]
    exact ⟨_, rfl, by decide⟩
  have described : TestEvent.Describes ⟨⟨1704164645, 0, 3600⟩, .pass, "p", "", "", none⟩
      ([TestEvent.textMember "Package" "p", (some ['x'], .array [])] ++
        [TestEvent.textMember "Time" "2024-01-02t04:04:05+01:00",
          TestEvent.textMember "Action" "pass"]) :=
    .intro time .written (.leftOut rfl) (.leftOut rfl) rfl .leftOut other List.perm_append_comm
  have written := Json.Spells.object
    (.moreMembers (member blank (plain "Package" (by simp)) (.string escaped))
      (.moreMembers (member no_blanks (plain "x" (by simp)) (.noItems no_blanks))
        (.moreMembers (member no_blanks (plain "Time" (by simp))
            (.string (plain "2024-01-02t04:04:05+01:00" (by simp))))
          (.lastMember (member no_blanks (plain "Action" (by simp))
            (.string (plain "pass" (by simp))))))))
  have line_end : ∀ c ∈ ['\r', '\n'], isEnding c = true := by simp [isEnding]
  have spelled := TestEvent.Spells.intro described (.item no_blanks written no_blanks) line_end
  have plain_time : Timestamp.Plain ⟨1704164645, 0, 3600⟩ := by constructor <;> decide
  refine Eq.trans (congrArg read ?_) ((read_every_spelling plain_time rfl).2 _ spelled)
  decide +kernel

end Line

end TestWatch
