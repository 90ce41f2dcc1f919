import TestWatch.Proofs.Json.Completeness

/-!
# What is read is written by the grammar

Whatever is read as a value is one of the ways to write that value. A token is read from a text of
its own, and the machine keeps what it has read in frames, so what is followed here is what the
frames still ask of the text: the rest of each open container, up to its closing bracket. Together
with the other direction, the grammar and the machine agree on every text.
-/

namespace TestWatch.Json

namespace Token

theorem lt_of_hexDigit? {c : Char} {n : Nat} (h : hexDigit? c = some n) : n < 16 := by
  have range {lo hi : Char} : lo ≤ c ∧ c ≤ hi ↔ lo.toNat ≤ c.toNat ∧ c.toNat ≤ hi.toNat := Iff.rfl
  simp only [hexDigit?, range] at h
  split at h
  · rename_i digit
    have := Text.toNat_of_isDigit digit
    cases h
    rw [show '0'.toNat = 48 from rfl]
    omega
  · split at h
    · rename_i small
      cases h
      rw [show 'a'.toNat = 97 from rfl, show 'f'.toNat = 102 from rfl] at *
      omega
    · split at h
      · rename_i large
        cases h
        rw [show 'A'.toNat = 65 from rfl, show 'F'.toNat = 70 from rfl] at *
        omega
      · cases h

theorem lt_of_hex? {a b c d : Char} {n : Nat} (h : hex? a b c d = some n) : n < 0x10000 := by
  simp only [hex?, hexValue?, List.foldlM_cons, List.foldlM_nil, Option.bind_eq_bind,
    Option.bind_eq_some_iff, Option.map_eq_some_iff, Option.pure_def, Option.some.injEq] at h
  obtain ⟨_, ⟨w, hw, rfl⟩, _, ⟨x, hx, rfl⟩, _, ⟨y, hy, rfl⟩, _, ⟨z, hz, rfl⟩, rfl⟩ := h
  have := lt_of_hexDigit? hw
  have := lt_of_hexDigit? hx
  have := lt_of_hexDigit? hy
  have := lt_of_hexDigit? hz
  omega

theorem toNat_ofNat {n : Nat} (valid : n.isValidChar) : (Char.ofNat n).toNat = n := by
  rw [Char.ofNat, dif_pos valid]
  rfl

/-- An escaped number is that of a character, unless it is half of a surrogate pair. -/
theorem toNat_ofNat_of_hex? {a b c d : Char} {n : Nat} (h : hex? a b c d = some n)
    (high : isHighSurrogate n = false) (low : isLowSurrogate n = false) :
    (Char.ofNat n).toNat = n := by
  have := lt_of_hex? h
  simp only [isHighSurrogate, isLowSurrogate, Bool.and_eq_false_iff, decide_eq_false_iff_not]
    at high low
  apply toNat_ofNat
  simp only [Nat.isValidChar]
  omega

theorem toNat_ofSurrogates {high low : Nat} (h : isHighSurrogate high = true)
    (h' : isLowSurrogate low = true) :
    (ofSurrogates high low).toNat = 0x10000 + (high - 0xD800) * 0x400 + (low - 0xDC00) := by
  simp only [isHighSurrogate, isLowSurrogate, Bool.and_eq_true, decide_eq_true_eq] at h h'
  apply toNat_ofNat
  simp only [Nat.isValidChar]
  omega

theorem mem_shortEscapes_of_escaped? {e c : Char} (h : escaped? e = some c) :
    (e, c) ∈ shortEscapes := by
  unfold escaped? at h
  split at h <;> cases h <;> decide

/-- What is read as the inside of a string stands there between quotes. -/
theorem quotes_of_string? {w : Bool} {acc cs rest : List Char} {s : Option (List Char)}
    (h : string? w acc cs = some (s, rest)) : ∃ whole chars text, cs = text ++ '"' :: rest ∧
      Quotes whole chars text ∧ s = if w && whole then some (acc.reverse ++ chars) else none := by
  fun_induction string? w acc cs with
  | case1 | case3 | case4 | case10 | case12 => cases h
  | case2 w acc cs =>
    cases h
    exact ⟨true, [], [], rfl, .nil, by simp⟩
  | case5 w acc a b c d high hex is_high e f g h' more low hex' is_low ih =>
    obtain ⟨whole, chars, text, rfl, quotes, value⟩ := ih h
    have pair := toNat_ofSurrogates is_high is_low
    exact ⟨whole, _, _, rfl, .pair hex is_high hex' is_low pair quotes, by simpa using value⟩
  | case6 w acc a b c d high hex is_high e f g h' more low hex' not_low ih =>
    obtain ⟨whole, chars, text, split, quotes, value⟩ := ih h
    -- The second escape is no other half: it is read once more, as the begin of the rest.
    have alone : ¬ BeginsLow text := by
      rintro ⟨e₁, f₁, g₁, h₁, low₁, text, rfl, hex₁, is_low⟩
      simp only [hexEscape, List.cons_append, List.cons.injEq, true_and] at split
      obtain ⟨rfl, rfl, rfl, rfl, -⟩ := split
      obtain rfl : low = low₁ := Option.some.inj (hex'.symm.trans hex₁)
      exact not_low is_low
    rw [split]
    exact ⟨false, chars, _, rfl, .highHalf hex is_high alone quotes, by simpa using value⟩
  | case7 w acc a b c d high hex is_high more no_escape ih =>
    obtain ⟨whole, chars, text, rfl, quotes, value⟩ := ih h
    have alone : ¬ BeginsLow text := by
      rintro ⟨e, f, g, h', low, text, rfl, -, -⟩
      exact no_escape e f g h' _ rfl
    exact ⟨false, chars, _, rfl, .highHalf hex is_high alone quotes, by simpa using value⟩
  | case8 w acc a b c d more low hex not_high is_low ih =>
    obtain ⟨whole, chars, text, rfl, quotes, value⟩ := ih h
    exact ⟨false, chars, _, rfl, .lowHalf hex is_low quotes, by simpa using value⟩
  | case9 w acc a b c d more n hex not_high not_low ih =>
    obtain ⟨whole, chars, text, rfl, quotes, value⟩ := ih h
    have number := toNat_ofNat_of_hex? hex (by simpa using not_high) (by simpa using not_low)
    exact ⟨whole, _, _, rfl, .number (hex.trans (by rw [number])) quotes, by simpa using value⟩
  | case11 w acc e more _ c escape ih =>
    obtain ⟨whole, chars, text, rfl, quotes, value⟩ := ih h
    exact ⟨whole, _, _, rfl, .short (mem_shortEscapes_of_escaped? escape) quotes,
      by simpa using value⟩
  | case13 w acc c more quote _ backslash visible ih =>
    obtain ⟨whole, chars, text, rfl, quotes, value⟩ := ih h
    -- A backslash would be followed by something, if only by the closing quote.
    have no_backslash : c ≠ '\\' := by
      rintro rfl
      cases text with
      | nil => exact backslash _ _ rfl rfl
      | cons d text => exact backslash _ _ rfl rfl
    exact ⟨whole, _, _, rfl, .literal (Nat.le_of_not_lt visible) quote no_backslash quotes,
      by simpa using value⟩

theorem stringText_of_string? {cs rest : List Char} {s : Option (List Char)}
    (h : string? true [] cs = some (s, rest)) :
    ∃ text, '"' :: cs = text ++ rest ∧ StringText s text := by
  obtain ⟨whole, chars, text, rfl, quotes, rfl⟩ := quotes_of_string? h
  refine ⟨'"' :: (text ++ ['"']), by simp, ?_⟩
  cases whole with
  | true => exact .text quotes
  | false => exact .noText quotes

section Numeral

variable {cs rest : List Char}

theorem digits_of_digits? {ds : List Char} (h : digits? cs = some (ds, rest)) :
    cs = ds ++ rest ∧ Digits ds := by
  simp only [digits?] at h
  split at h
  · cases h
  · rename_i some_digit
    cases h
    refine ⟨List.takeWhile_append_dropWhile.symm, by simpa using some_digit, ?_⟩
    exact List.all_eq_true.1 List.all_takeWhile

theorem wholeText_of_whole? {ds : List Char} (h : whole? cs = some (ds, rest)) :
    cs = ds ++ rest ∧ WholeText ds := by
  simp only [whole?, Option.bind_eq_bind, Option.bind_eq_some_iff, Prod.exists] at h
  obtain ⟨ds', rest', read, h⟩ := h
  obtain ⟨split, digits⟩ := digits_of_digits? read
  split at h
  · cases h
  · rename_i allowed
    cases h
    refine ⟨split, digits, fun zero => ?_⟩
    have single : ds.length = 1 := by
      by_contra longer
      exact allowed ⟨zero, longer⟩
    obtain ⟨d, rfl⟩ := List.length_eq_one_iff.1 single
    rw [Option.some.inj zero]

theorem fractionText_of_fraction? {ds : List Char} (h : fraction? cs = some (ds, rest)) :
    ∃ text, cs = text ++ rest ∧ FractionText ds text := by
  unfold fraction? at h
  split at h
  · obtain ⟨rfl, digits⟩ := digits_of_digits? h
    exact ⟨_, rfl, .digits digits⟩
  · cases h
    exact ⟨[], rfl, .none⟩

theorem digits_of_exponentDigits? {negative : Bool} {n : Int}
    (h : exponentDigits? negative cs = some (n, rest)) : ∃ ds, cs = ds ++ rest ∧ Digits ds ∧
      n = if negative then Int.neg (digitsValue ds) else digitsValue ds := by
  simp only [exponentDigits?, Option.map_eq_some_iff, Prod.exists] at h
  obtain ⟨ds, rest', read, same⟩ := h
  cases same
  obtain ⟨split, digits⟩ := digits_of_digits? read
  exact ⟨ds, split, digits, rfl⟩

theorem exponentText_of_exponent? {n : Int} (h : exponent? cs = some (n, rest)) :
    ∃ text, cs = text ++ rest ∧ ExponentText n text := by
  have small : 'e' ∈ ['e', 'E'] := by decide
  have large : 'E' ∈ ['e', 'E'] := by decide
  unfold exponent? at h
  split at h
  case h_7 =>
    cases h
    exact ⟨[], rfl, .none⟩
  all_goals obtain ⟨ds, rfl, digits, rfl⟩ := digits_of_exponentDigits? h
  case h_1 => exact ⟨_, rfl, .minus small digits⟩
  case h_2 => exact ⟨_, rfl, .minus large digits⟩
  case h_3 => exact ⟨_, rfl, .plus small digits⟩
  case h_4 => exact ⟨_, rfl, .plus large digits⟩
  case h_5 => exact ⟨_, rfl, .unsigned small digits⟩
  case h_6 => exact ⟨_, rfl, .unsigned large digits⟩

theorem numeralText_of_numeral? {n : Numeral} (h : numeral? cs = some (n, rest)) :
    ∃ text, cs = text ++ rest ∧ NumeralText n text := by
  have unsigned {negative : Bool} {cs : List Char} (h : unsigned? negative cs = some (n, rest)) :
      ∃ whole fraction f exponent x, cs = whole ++ (f ++ x) ++ rest ∧ WholeText whole ∧
        FractionText fraction f ∧ ExponentText exponent x ∧
        n = ⟨negative, whole, fraction, exponent⟩ := by
    simp only [unsigned?, Option.bind_eq_bind, Option.bind_eq_some_iff, Prod.exists] at h
    obtain ⟨whole, _, read, fraction, _, read', exponent, _, read'', same⟩ := h
    cases same
    obtain ⟨rfl, w⟩ := wholeText_of_whole? read
    obtain ⟨f, rfl, hf⟩ := fractionText_of_fraction? read'
    obtain ⟨x, rfl, hx⟩ := exponentText_of_exponent? read''
    exact ⟨whole, fraction, f, exponent, x, by simp, w, hf, hx, rfl⟩
  unfold numeral? at h
  split at h
  · obtain ⟨whole, fraction, f, exponent, x, rfl, w, hf, hx, rfl⟩ := unsigned h
    exact ⟨_, rfl, .negative w hf hx⟩
  · obtain ⟨whole, fraction, f, exponent, x, rfl, w, hf, hx, rfl⟩ := unsigned h
    exact ⟨_, rfl, .positive w hf hx⟩

end Numeral

/-- A token and the text that it is read from. -/
inductive Written : Token → List Char → Prop
  | mark {c : Char} {t : Token} : (c, t) ∈ marks → Written t [c]
  | null : Written .null ['n', 'u', 'l', 'l']
  | true : Written (.bool true) ['t', 'r', 'u', 'e']
  | false : Written (.bool false) ['f', 'a', 'l', 's', 'e']
  | number {n : Numeral} {text : List Char} : NumeralText n text → Written (.number n) text
  | string {s : Option (List Char)} {text : List Char} :
      StringText s text → Written (.string s) text

theorem written_of_next? {cs rest : List Char} {t : Token} (h : next? cs = some (t, rest)) :
    ∃ text, cs = text ++ rest ∧ t.Written text := by
  unfold next? at h
  split at h
  case h_7 =>
    simp only [Option.map_eq_some_iff, Prod.exists, Prod.mk.injEq] at h
    obtain ⟨s, _, read, rfl, rfl⟩ := h
    obtain ⟨text, split, written⟩ := stringText_of_string? read
    exact ⟨text, split, .string written⟩
  case h_11 =>
    simp only [Option.map_eq_some_iff, Prod.exists, Prod.mk.injEq] at h
    obtain ⟨n, _, read, rfl, rfl⟩ := h
    obtain ⟨text, split, written⟩ := numeralText_of_numeral? read
    exact ⟨text, split, .number written⟩
  case h_8 => cases h; exact ⟨_, rfl, .null⟩
  case h_9 => cases h; exact ⟨_, rfl, .true⟩
  case h_10 => cases h; exact ⟨_, rfl, .false⟩
  all_goals
    cases h
    exact ⟨_, rfl, .mark (by decide)⟩

theorem Written.eq_mark {c : Char} {t : Token} {text : List Char} (h : t.Written text)
    (mark : (c, t) ∈ marks) : text = [c] := by
  simp only [marks, List.mem_cons, Prod.mk.injEq, List.not_mem_nil, or_false] at mark
  rcases mark with ⟨rfl, rfl⟩ | ⟨rfl, rfl⟩ | ⟨rfl, rfl⟩ | ⟨rfl, rfl⟩ | ⟨rfl, rfl⟩ | ⟨rfl, rfl⟩
  all_goals
    cases h with
    | mark same => simpa [marks] using same

theorem Written.stringText {s : Option (List Char)} {text : List Char}
    (h : (Token.string s).Written text) : StringText s text := by
  cases h with
  | mark mark => simp [marks] at mark
  | string written => exact written

end Token

/-- The items after the first one, each behind its comma. -/
inductive MoreItems : List Json → List Char → Prop
  | none : MoreItems [] []
  | more {vs : List Json} {text : List Char} :
      Spells (.items vs) text → MoreItems vs (',' :: text)

/-- The members after the first one, each behind its comma. -/
inductive MoreMembers : List Member → List Char → Prop
  | none : MoreMembers [] []
  | more {ms : List Member} {text : List Char} :
      Spells (.members ms) text → MoreMembers ms (',' :: text)

theorem Spells.append_blanks {v : Json} {text b : List Char} (h : Spells (.item v) text)
    (hb : Blanks b) : Spells (.item v) (text ++ b) := by
  cases h with
  | item before spelled after =>
    rw [List.append_assoc, List.append_assoc]
    exact .item before spelled fun c hc => (List.mem_append.1 hc).elim (after c) (hb c)

theorem MoreItems.items {v : Json} {vs : List Json} {text more : List Char}
    (h : MoreItems vs more) (first : Spells (.item v) text) :
    Spells (.items (v :: vs)) (text ++ more) := by
  cases h with
  | none => exact (List.append_nil text).symm ▸ .lastItem first
  | more others => exact .moreItems first others

theorem MoreMembers.members {m : Member} {ms : List Member} {text more : List Char}
    (h : MoreMembers ms more) (first : Spells (.member m) text) :
    Spells (.members (m :: ms)) (text ++ more) := by
  cases h with
  | none => exact (List.append_nil text).symm ▸ .lastMember first
  | more others => exact .moreMembers first others

namespace Frame

/-- A container with one more value in it. -/
def add (v : Json) : Frame → Frame
  | .array items => .array (v :: items)
  | .object members => .object members
  | .member members key => .object ((key, v) :: members)

/-- The rest of a container, after an item or a member, and the value that it comes to. -/
inductive Closed : Frame → Json → List Char → Prop
  | array {items vs : List Json} {b more : List Char} : Blanks b → MoreItems vs more →
      Closed (.array items) (.array (items.reverse ++ vs)) (b ++ (more ++ [']']))
  | object {members ms : List Member} {b more : List Char} : Blanks b → MoreMembers ms more →
      Closed (.object members) (.object (members.reverse ++ ms)) (b ++ (more ++ ['}']))

end Frame

/-- The text after a complete value, which closes the open containers one after the other, so that
all together come to `j`. -/
inductive Closes (j : Json) : List Frame → Json → List Char → Prop
  | nil {b : List Char} : Blanks b → Closes j [] j b
  | cons {f : Frame} {stack : List Frame} {v w : Json} {text rest : List Char} :
      (f.add v).Closed w text → Closes j stack w rest → Closes j (f :: stack) v (text ++ rest)

namespace State

/-- What the grammar asks of a text for the machine to come to `j` from here. -/
inductive Ends (j : Json) : State → List Char → Prop
  | done {b : List Char} : Blanks b → Ends j (.done j) b
  | value {stack : List Frame} {v : Json} {text rest : List Char} :
      Spells (.item v) text → Closes j stack v rest → Ends j (.value stack) (text ++ rest)
  | noItem {stack : List Frame} {b rest : List Char} :
      Blanks b → Closes j stack (.array []) rest → Ends j (.firstItem stack) (b ++ ']' :: rest)
  | firstItem {stack : List Frame} {vs : List Json} {text rest : List Char} :
      Spells (.items vs) text → Closes j stack (.array vs) rest →
      Ends j (.firstItem stack) (text ++ ']' :: rest)
  | noKey {stack : List Frame} {b rest : List Char} :
      Blanks b → Closes j stack (.object []) rest → Ends j (.firstKey stack) (b ++ '}' :: rest)
  | firstKey {stack : List Frame} {ms : List Member} {text rest : List Char} :
      Spells (.members ms) text → Closes j stack (.object ms) rest →
      Ends j (.firstKey stack) (text ++ '}' :: rest)
  | nextKey {stack : List Frame} {before ms : List Member} {text rest : List Char} :
      Spells (.members ms) text → Closes j stack (.object (before.reverse ++ ms)) rest →
      Ends j (.nextKey before stack) (text ++ '}' :: rest)
  | colon {stack : List Frame} {before ms : List Member} {key : Option (List Char)} {v : Json}
      {b text more rest : List Char} :
      Blanks b → Spells (.item v) text → MoreMembers ms more →
      Closes j stack (.object (before.reverse ++ (key, v) :: ms)) rest →
      Ends j (.colon before key stack) (b ++ ':' :: (text ++ (more ++ '}' :: rest)))
  | next {stack : List Frame} {f : Frame} {w : Json} {text rest : List Char} :
      f.Closed w text → Closes j stack w rest → Ends j (.next f stack) (text ++ rest)

section Step

variable {j : Json} {stack : List Frame} {t : Token} {s' : State} {b text rest : List Char}

theorem closes_of_push {v : Json} (h : (push v stack).Ends j rest) : Closes j stack v rest := by
  cases stack with
  | nil =>
    cases h with
    | done blanks => exact .nil blanks
  | cons f stack =>
    have pushed : push v (f :: stack) = .next (f.add v) stack := by cases f <;> rfl
    rw [pushed] at h
    cases h with
    | next closed closes => exact .cons closed closes

theorem exists_spells_of_beginValue (h : beginValue stack t = some s') (written : t.Written text)
    (ends : s'.Ends j rest) : ∃ v more rest', rest = more ++ rest' ∧
      Spells (.value v) (text ++ more) ∧ Closes j stack v rest' := by
  have complete {v : Json} (spelled : Spells (.value v) text) (pushed : push v stack = s') :
      ∃ v more rest', rest = more ++ rest' ∧ Spells (.value v) (text ++ more) ∧
        Closes j stack v rest' := by
    rw [← pushed] at ends
    exact ⟨v, [], rest, rfl, by rwa [List.append_nil], closes_of_push ends⟩
  cases written with
  | null => exact complete .null (Option.some.inj h)
  | true => exact complete .true (Option.some.inj h)
  | false => exact complete .false (Option.some.inj h)
  | number numeral => exact complete (.number numeral) (Option.some.inj h)
  | string str => exact complete (.string str) (Option.some.inj h)
  | mark mark =>
    simp only [Token.marks, List.mem_cons, Prod.mk.injEq, List.not_mem_nil, or_false] at mark
    rcases mark with ⟨rfl, rfl⟩ | ⟨rfl, rfl⟩ | ⟨rfl, rfl⟩ | ⟨rfl, rfl⟩ | ⟨rfl, rfl⟩ | ⟨rfl, rfl⟩
    case inr.inr.inl =>
      cases h
      cases ends with
      | @noItem _ b rest blanks closes =>
        exact ⟨_, b ++ [']'], rest, by simp, .noItems blanks, closes⟩
      | @firstItem _ vs text rest items closes =>
        exact ⟨_, text ++ [']'], rest, by simp, .array items, closes⟩
    case inl =>
      cases h
      cases ends with
      | @noKey _ b rest blanks closes =>
        exact ⟨_, b ++ ['}'], rest, by simp, .noMembers blanks, closes⟩
      | @firstKey _ ms text rest members closes =>
        exact ⟨_, text ++ ['}'], rest, by simp, .object members, closes⟩
    all_goals cases h

/-- A value that begins here, with blanks before it. -/
theorem exists_item_of_beginValue (h : beginValue stack t = some s') (written : t.Written text)
    (blanks : Blanks b) (ends : s'.Ends j rest) :
    ∃ v item rest', b ++ (text ++ rest) = item ++ rest' ∧ Spells (.item v) item ∧
      Closes j stack v rest' := by
  obtain ⟨v, more, rest', rfl, spelled, closes⟩ := exists_spells_of_beginValue h written ends
  have no_blanks : Blanks [] := nofun
  exact ⟨v, _, rest', by simp, .item blanks spelled no_blanks, closes⟩

theorem Ends.step_firstItem (h : (State.firstItem stack).step t = some s') (blanks : Blanks b)
    (written : t.Written text) (ends : s'.Ends j rest) :
    (State.firstItem stack).Ends j (b ++ (text ++ rest)) := by
  by_cases close : t = .closeArray
  · subst close
    cases h
    rw [written.eq_mark (c := ']') (by decide)]
    exact .noItem blanks (closes_of_push ends)
  · rw [State.awaits_firstItem stack t close] at h
    obtain ⟨v, item, _, split, spelled, closes⟩ := exists_item_of_beginValue h written blanks ends
    rw [split]
    cases closes with
    | cons closed closes =>
      cases closed with
      | array after more =>
        have whole := Ends.firstItem (more.items (spelled.append_blanks after)) closes
        simpa using whole

theorem Ends.step_firstKey (h : (State.firstKey stack).step t = some s') (blanks : Blanks b)
    (written : t.Written text) (ends : s'.Ends j rest) :
    (State.firstKey stack).Ends j (b ++ (text ++ rest)) := by
  cases t with
  | closeObject =>
    cases h
    rw [written.eq_mark (c := '}') (by decide)]
    exact .noKey blanks (closes_of_push ends)
  | string k =>
    cases h
    cases ends with
    | colon after spelled more closes =>
      have member := Spells.member blanks written.stringText after spelled
      have whole := Ends.firstKey (more.members member) closes
      simpa using whole
  | _ => cases h

theorem Ends.step_nextKey {before : List Member} (h : (State.nextKey before stack).step t = some s')
    (blanks : Blanks b) (written : t.Written text) (ends : s'.Ends j rest) :
    (State.nextKey before stack).Ends j (b ++ (text ++ rest)) := by
  cases t with
  | string k =>
    cases h
    cases ends with
    | colon after spelled more closes =>
      have member := Spells.member blanks written.stringText after spelled
      have whole := Ends.nextKey (more.members member) closes
      simpa using whole
  | _ => cases h

theorem Ends.step_colon {before : List Member} {key : Option (List Char)}
    (h : (State.colon before key stack).step t = some s') (blanks : Blanks b)
    (written : t.Written text) (ends : s'.Ends j rest) :
    (State.colon before key stack).Ends j (b ++ (text ++ rest)) := by
  cases t with
  | colon =>
    cases h
    rw [written.eq_mark (c := ':') (by decide)]
    cases ends with
    | value spelled closes =>
      cases closes with
      | cons closed closes =>
        cases closed with
        | object after more =>
          have whole := Ends.colon blanks (spelled.append_blanks after) more (by simpa using closes)
          simpa using whole
  | _ => cases h

theorem Ends.step_array {items : List Json} (h : (State.next (.array items) stack).step t = some s')
    (blanks : Blanks b) (written : t.Written text) (ends : s'.Ends j rest) :
    (State.next (.array items) stack).Ends j (b ++ (text ++ rest)) := by
  cases t with
  | comma =>
    cases h
    rw [written.eq_mark (c := ',') (by decide)]
    cases ends with
    | value spelled closes =>
      cases closes with
      | cons closed closes =>
        cases closed with
        | array after more =>
          have others := more.items (spelled.append_blanks after)
          have closed : (Frame.array items).Closed _ _ := .array blanks (.more others)
          have whole := Ends.next closed (by simpa using closes)
          simpa using whole
  | closeArray =>
    cases h
    rw [written.eq_mark (c := ']') (by decide)]
    have closed : (Frame.array items).Closed _ _ := .array blanks .none
    have whole := Ends.next closed (by simpa using closes_of_push ends)
    simpa using whole
  | _ => cases h

theorem Ends.step_object {members : List Member}
    (h : (State.next (.object members) stack).step t = some s') (blanks : Blanks b)
    (written : t.Written text) (ends : s'.Ends j rest) :
    (State.next (.object members) stack).Ends j (b ++ (text ++ rest)) := by
  cases t with
  | comma =>
    cases h
    rw [written.eq_mark (c := ',') (by decide)]
    cases ends with
    | nextKey spelled closes =>
      have closed : (Frame.object members).Closed _ _ := .object blanks (.more spelled)
      have whole := Ends.next closed closes
      simpa using whole
  | closeObject =>
    cases h
    rw [written.eq_mark (c := '}') (by decide)]
    have closed : (Frame.object members).Closed _ _ := .object blanks .none
    have whole := Ends.next closed (by simpa using closes_of_push ends)
    simpa using whole
  | _ => cases h

/-- What a token leaves to come, it asks for together with itself. -/
theorem Ends.step {s : State} (h : s.step t = some s') (blanks : Blanks b)
    (written : t.Written text) (ends : s'.Ends j rest) : s.Ends j (b ++ (text ++ rest)) := by
  cases s with
  | value stack =>
    obtain ⟨v, item, rest', split, spelled, closes⟩ :=
      exists_item_of_beginValue h written blanks ends
    rw [split]
    exact .value spelled closes
  | firstItem stack => exact step_firstItem h blanks written ends
  | firstKey stack => exact step_firstKey h blanks written ends
  | nextKey before stack => exact step_nextKey h blanks written ends
  | colon before key stack => exact step_colon h blanks written ends
  | next frame stack =>
    cases frame with
    | array items => exact step_array h blanks written ends
    | object members => exact step_object h blanks written ends
    | member members key => cases t <;> cases h
  | done v => cases h

end Step

end State

theorem blanks_of_dropWhile {cs : List Char} (h : cs.dropWhile Token.isSpace = []) : Blanks cs := by
  have all : cs.takeWhile Token.isSpace ++ [] = cs := h ▸ List.takeWhile_append_dropWhile
  rw [← all, List.append_nil]
  exact List.all_eq_true.1 List.all_takeWhile

/-- The machine comes to a value only over a text that the grammar allows from there. -/
theorem ends_of_feed {j : Json} {fuel : Nat} {s : State} {cs : List Char}
    (h : feed fuel s cs = some j) : s.Ends j cs := by
  induction fuel generalizing s cs with
  | zero => cases h
  | succ fuel ih =>
    rw [feed] at h
    split at h
    · rename_i at_end
      cases s with
      | done v =>
        cases h
        exact .done (blanks_of_dropWhile at_end)
      | _ => cases h
    · rename_i c rest begins
      have blanks : Blanks (cs.takeWhile Token.isSpace) := List.all_eq_true.1 List.all_takeWhile
      split at h
      · cases h
      · rename_i t rest' read
        split at h
        · cases h
        · rename_i s' step
          obtain ⟨text, token, written⟩ := Token.written_of_next? read
          rw [← List.takeWhile_append_dropWhile (p := Token.isSpace) (l := cs), begins, token]
          exact .step step blanks written (ih h)

theorem spells_of_ofText? {j : Json} {text : List Char} (h : ofText? text = some j) :
    Spells (.item j) text := by
  have ends : State.Ends j (.value []) text := ends_of_feed h
  cases ends with
  | value spelled closes =>
    cases closes with
    | nil blanks => exact spelled.append_blanks blanks

/-- What is read are the texts of the grammar, each as the value that it spells. -/
theorem ofText?_eq_some_iff {j : Json} {text : List Char} :
    ofText? text = some j ↔ Spells (.item j) text :=
  ⟨spells_of_ofText?, ofText?_of_spells⟩

end TestWatch.Json
