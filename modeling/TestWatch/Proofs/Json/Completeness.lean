import TestWatch.Json.Reader
import TestWatch.Proofs.Json.Grammar
import TestWatch.Proofs.Number.Digits

/-!
# Every way to write a value is read

Whatever the grammar derives for a value is read as that value. The machine is followed from one
position in the text to another, so what is shown of a part of a text can be used wherever that
part stands. A numeral is the one token whose end shows only in what comes after it.
-/

namespace TestWatch.Json

namespace Token

theorem not_surrogate (c : Char) :
    isHighSurrogate c.toNat = false ∧ isLowSurrogate c.toNat = false := by
  have valid := c.valid
  simp only [UInt32.isValidChar, Nat.isValidChar, Char.toNat] at *
  simp only [isHighSurrogate, isLowSurrogate, Bool.and_eq_false_iff, decide_eq_false_iff_not]
  omega

section Text

variable {whole : Bool} {acc rest : List Char} {a b c d : Char}

theorem string?_literal (visible : 0x20 ≤ c.toNat) (quote : c ≠ '"') (backslash : c ≠ '\\') :
    string? whole acc (c :: rest) = string? whole (c :: acc) rest := by
  rw [string?]
  · rw [if_neg (Nat.not_lt.2 visible)]
  all_goals simp_all

theorem string?_short {e : Char} (h : (e, c) ∈ shortEscapes) :
    string? whole acc ('\\' :: e :: rest) = string? whole (c :: acc) rest := by
  simp only [shortEscapes, List.mem_cons, Prod.mk.injEq, List.not_mem_nil, or_false] at h
  rcases h with h | h | h | h | h | h | h | h
  all_goals
    obtain ⟨rfl, rfl⟩ := h
    rw [string?] <;> simp [escaped?]

theorem string?_number {x : Char} (h : hexValue? [a, b, c, d] = some x.toNat) :
    string? whole acc (hexEscape a b c d rest) = string? whole (x :: acc) rest := by
  obtain ⟨high, low⟩ := not_surrogate x
  simp [string?, hexEscape, hex?, h, high, low]

theorem string?_pair {x e f g h : Char} {high low : Nat} (hex : hexValue? [a, b, c, d] = some high)
    (is_high : isHighSurrogate high = true) (hex' : hexValue? [e, f, g, h] = some low)
    (is_low : isLowSurrogate low = true)
    (value : x.toNat = 0x10000 + (high - 0xD800) * 0x400 + (low - 0xDC00)) :
    string? whole acc (hexEscape a b c d (hexEscape e f g h rest)) =
      string? whole (x :: acc) rest := by
  have paired : ofSurrogates high low = x := by
    rw [ofSurrogates, ← value, Char.ofNat_toNat]
  simp [string?, hexEscape, hex?, hex, hex', is_high, is_low, paired]

theorem string?_lowHalf {low : Nat} (hex : hexValue? [a, b, c, d] = some low)
    (is_low : isLowSurrogate low = true) :
    string? whole acc (hexEscape a b c d rest) = string? false acc rest := by
  have not_high : isHighSurrogate low = false := by
    simp only [isLowSurrogate, isHighSurrogate, Bool.and_eq_true, decide_eq_true_eq,
      Bool.and_eq_false_iff, decide_eq_false_iff_not] at *
    omega
  simp [string?, hexEscape, hex?, hex, not_high, is_low]

end Text

/-- An escape by number at the beginning of what follows belongs to the string itself. -/
theorem hexEscape_eq_of_quotes {whole : Bool} {cs text rest more : List Char} {a b c d : Char}
    (h : Quotes whole cs text) (begins : text ++ '"' :: rest = hexEscape a b c d more) :
    ∃ text', text = hexEscape a b c d text' ∧ ∃ n, hexValue? [a, b, c, d] = some n := by
  cases h with
  | nil => simp [hexEscape] at begins
  | literal _ _ backslash _ =>
    simp only [hexEscape, List.cons_append, List.cons.injEq] at begins
    exact absurd begins.1 backslash
  | short escape _ =>
    simp only [hexEscape, List.cons_append, List.cons.injEq] at begins
    rw [begins.2.1] at escape
    simp [shortEscapes] at escape
  | number hex _ =>
    simp only [hexEscape, List.cons_append, List.cons.injEq] at begins
    obtain ⟨-, -, rfl, rfl, rfl, rfl, -⟩ := begins
    exact ⟨_, rfl, _, hex⟩
  | pair hex _ _ _ _ _ =>
    simp only [hexEscape, List.cons_append, List.cons.injEq] at begins
    obtain ⟨-, -, rfl, rfl, rfl, rfl, -⟩ := begins
    exact ⟨_, rfl, _, hex⟩
  | highHalf hex _ _ _ =>
    simp only [hexEscape, List.cons_append, List.cons.injEq] at begins
    obtain ⟨-, -, rfl, rfl, rfl, rfl, -⟩ := begins
    exact ⟨_, rfl, _, hex⟩
  | lowHalf hex _ _ =>
    simp only [hexEscape, List.cons_append, List.cons.injEq] at begins
    obtain ⟨-, -, rfl, rfl, rfl, rfl, -⟩ := begins
    exact ⟨_, rfl, _, hex⟩

theorem string?_highHalf {w whole : Bool} {acc cs text rest : List Char} {a b c d : Char}
    {high : Nat} (hex : hexValue? [a, b, c, d] = some high) (is_high : isHighSurrogate high = true)
    (alone : ¬ BeginsLow text) (h : Quotes whole cs text) :
    string? w acc (hexEscape a b c d (text ++ '"' :: rest)) =
      string? false acc (text ++ '"' :: rest) := by
  rw [hexEscape, string?]
  simp only [hex?, hex, is_high, if_true]
  split
  · rename_i e f g h' rest' begins
    obtain ⟨text', rfl, n, hex'⟩ := hexEscape_eq_of_quotes h begins
    have not_low : isLowSurrogate n = false := by
      rw [← Bool.not_eq_true]
      exact fun is_low => alone ⟨e, f, g, h', n, text', rfl, hex', is_low⟩
    rw [begins]
    simp [hex', not_low]
  · rfl

/-- What is written between quotes is read up to the closing quote. -/
theorem string?_quotes {whole : Bool} {cs text : List Char} (h : Quotes whole cs text) (w : Bool)
    (acc rest : List Char) :
    string? w acc (text ++ '"' :: rest) =
      some (if w && whole then some (acc.reverse ++ cs) else none, rest) := by
  induction h generalizing w acc with
  | nil => simp [string?]
  | literal visible quote backslash _ ih =>
    rw [List.cons_append, string?_literal visible quote backslash, ih]
    simp
  | short escape _ ih =>
    rw [List.cons_append, List.cons_append, string?_short escape, ih]
    simp
  | number hex _ ih =>
    exact (string?_number hex).trans ((ih ..).trans (by simp))
  | pair hex is_high hex' is_low value _ ih =>
    exact (string?_pair hex is_high hex' is_low value).trans ((ih ..).trans (by simp))
  | highHalf hex is_high alone quotes ih =>
    exact (string?_highHalf hex is_high alone quotes).trans ((ih ..).trans (by simp))
  | lowHalf hex is_low _ ih =>
    exact (string?_lowHalf hex is_low).trans ((ih ..).trans (by simp))

theorem next?_string {s : Option (List Char)} {text : List Char} (h : StringText s text)
    (rest : List Char) : next? (text ++ rest) = some (.string s, rest) := by
  cases h with
  | text quotes =>
    have read := string?_quotes quotes true [] rest
    simp [next?, read]
  | noText quotes =>
    have read := string?_quotes quotes true [] rest
    simp [next?, read]

/-- What follows cannot extend a numeral. -/
def Apart (rest : List Char) : Prop :=
  ∀ c ∈ rest.head?, c.isDigit = false ∧ c ≠ '.' ∧ c ≠ 'e' ∧ c ≠ 'E'

theorem Apart.noDigit {rest : List Char} (h : Apart rest) : NoDigit rest := fun c hc => (h c hc).1

theorem noDigit_exponent {n : Int} {x rest : List Char} (h : ExponentText n x)
    (apart : Apart rest) : NoDigit (x ++ rest) := by
  have letters : ∀ c ∈ ['e', 'E'], c.isDigit = false := by simp
  cases h with
  | none => exact apart.noDigit
  | unsigned letter _ | plus letter _ | minus letter _ => exact .cons (letters _ letter) _

theorem no_point_exponent {n : Int} {x rest : List Char} (h : ExponentText n x)
    (apart : Apart rest) (more : List Char) : x ++ rest ≠ '.' :: more := by
  have letters : ∀ c ∈ ['e', 'E'], c ≠ '.' := by simp
  cases h with
  | none =>
    rintro rfl
    exact (apart '.' rfl).2.1 rfl
  | unsigned letter _ | plus letter _ | minus letter _ =>
    intro same
    exact letters _ letter (List.cons.inj same).1

section Numeral

variable {rest : List Char}

theorem digits?_append {ds : List Char} (h : Digits ds) (ends : NoDigit rest) :
    digits? (ds ++ rest) = some (ds, rest) := by
  obtain ⟨taken, dropped⟩ := takeWhile_digits h.2 ends
  simp [digits?, taken, dropped, h.1]

theorem whole?_append {ds : List Char} (h : WholeText ds) (ends : NoDigit rest) :
    whole? (ds ++ rest) = some (ds, rest) := by
  have allowed : ¬ (ds.head? = some '0' ∧ ds.length ≠ 1) := by
    rintro ⟨zero, longer⟩
    exact longer (by rw [h.2 zero]; rfl)
  simp only [whole?, digits?_append h.1 ends, Option.bind_eq_bind, Option.bind_some]
  exact if_neg allowed

theorem fraction?_append {ds f : List Char} (h : FractionText ds f) (ends : NoDigit rest)
    (no_point : ∀ more, rest ≠ '.' :: more) : fraction? (f ++ rest) = some (ds, rest) := by
  cases h with
  | none =>
    rw [List.nil_append, fraction?]
    exact no_point
  | digits digits =>
    rw [List.cons_append, fraction?]
    exact digits?_append digits ends

theorem exponentDigits?_append {ds : List Char} (h : Digits ds) (ends : NoDigit rest)
    (negative : Bool) : exponentDigits? negative (ds ++ rest) =
      some (if negative then Int.neg (digitsValue ds) else digitsValue ds, rest) := by
  simp [exponentDigits?, digits?_append h ends]

theorem exponent?_append {n : Int} {x : List Char} (h : ExponentText n x) (apart : Apart rest) :
    exponent? (x ++ rest) = some (n, rest) := by
  have ends := apart.noDigit
  cases h with
  | none =>
    cases rest with
    | nil => rfl
    | cons c rest =>
      obtain ⟨-, -, small, large⟩ := apart c rfl
      rw [List.nil_append, exponent?]
      all_goals simp [small, large]
  | @unsigned letter ds is_letter digits =>
    obtain ⟨d, ds, rfl⟩ := List.exists_cons_of_ne_nil digits.1
    have digit : d.isDigit = true := digits.2 d (List.mem_cons_self ..)
    have no_minus : d ≠ '-' := ne_of_isDigit digit rfl
    have no_plus : d ≠ '+' := ne_of_isDigit digit rfl
    have read := exponentDigits?_append digits ends false
    simp only [List.mem_cons, List.not_mem_nil, or_false] at is_letter
    rcases is_letter with rfl | rfl
    all_goals
      rw [List.cons_append, exponent?, read]
      · rfl
      · simp [no_minus]
      · simp [no_plus]
  | plus is_letter digits =>
    simp only [List.mem_cons, List.not_mem_nil, or_false] at is_letter
    rcases is_letter with rfl | rfl
    all_goals simp [exponent?, exponentDigits?_append digits ends]
  | minus is_letter digits =>
    simp only [List.mem_cons, List.not_mem_nil, or_false] at is_letter
    rcases is_letter with rfl | rfl
    all_goals simp [exponent?, exponentDigits?_append digits ends]

theorem unsigned?_append {whole fraction f x : List Char} {exponent : Int} (negative : Bool)
    (w : WholeText whole) (hf : FractionText fraction f) (hx : ExponentText exponent x)
    (apart : Apart rest) :
    unsigned? negative (whole ++ (f ++ x) ++ rest) =
      some (⟨negative, whole, fraction, exponent⟩, rest) := by
  have after_fraction : NoDigit (x ++ rest) := noDigit_exponent hx apart
  have after_whole : NoDigit (f ++ (x ++ rest)) := by
    cases hf with
    | none => exact after_fraction
    | digits _ => exact .cons (by decide) _
  simp only [unsigned?, List.append_assoc, whole?_append w after_whole,
    fraction?_append hf after_fraction (no_point_exponent hx apart), exponent?_append hx apart,
    Option.bind_eq_bind, Option.bind_some]

/-- What begins with a digit or a minus sign is a numeral. -/
theorem next?_eq_numeral? {c : Char} {cs : List Char} (h : c.isDigit = true ∨ c = '-') :
    next? (c :: cs) = (numeral? (c :: cs)).map fun (n, rest) => (.number n, rest) := by
  have no_number : ∀ d ∈ ['{', '}', '[', ']', ',', ':', '"', 'n', 't', 'f'],
      d.isDigit = false ∧ '-' ≠ d := by simp
  have others : ∀ d ∈ ['{', '}', '[', ']', ',', ':', '"', 'n', 't', 'f'], c ≠ d := by
    intro d hd
    rcases h with h | rfl
    · exact ne_of_isDigit h (no_number d hd).1
    · exact (no_number d hd).2
  simp only [List.mem_cons, List.not_mem_nil, or_false, forall_eq_or_imp, forall_eq] at others
  rw [next?]
  all_goals simp [others]

theorem next?_number {n : Numeral} {text : List Char} (h : NumeralText n text)
    (apart : Apart rest) : next? (text ++ rest) = some (.number n, rest) := by
  cases h with
  | @positive whole _ f x _ w hf hx =>
    have read := unsigned?_append false w hf hx apart
    obtain ⟨d, ds, rfl⟩ := List.exists_cons_of_ne_nil w.1.1
    have digit : d.isDigit = true := w.1.2 d (List.mem_cons_self ..)
    have no_minus : d ≠ '-' := ne_of_isDigit digit rfl
    simp only [List.cons_append] at read ⊢
    rw [next?_eq_numeral? (.inl digit), numeral?, read]
    · rfl
    · simp [no_minus]
  | negative w hf hx =>
    rw [List.cons_append, next?_eq_numeral? (.inr rfl), numeral?,
      unsigned?_append true w hf hx apart]
    rfl

end Numeral

def marks : List (Char × Token) :=
  [('{', .openObject), ('}', .closeObject), ('[', .openArray), (']', .closeArray),
    (',', .comma), (':', .colon)]

theorem next?_mark {c : Char} {t : Token} (h : (c, t) ∈ marks) (rest : List Char) :
    isSpace c = false ∧ next? (c :: rest) = some (t, rest) := by
  simp only [marks, List.mem_cons, Prod.mk.injEq, List.not_mem_nil, or_false] at h
  rcases h with h | h | h | h | h | h
  all_goals
    obtain ⟨rfl, rfl⟩ := h
    exact ⟨by decide, rfl⟩

end Token

/-- From one position the machine comes to another. -/
def Feeds (s : State) (cs : List Char) (s' : State) (cs' : List Char) : Prop :=
  ∀ fuel, cs.length < fuel → ∃ fuel', cs'.length < fuel' ∧ feed fuel s cs = feed fuel' s' cs'

namespace Feeds

variable {s₁ s₂ s₃ : State} {cs₁ cs₂ cs₃ : List Char}

theorem trans (h : Feeds s₁ cs₁ s₂ cs₂) (h' : Feeds s₂ cs₂ s₃ cs₃) : Feeds s₁ cs₁ s₃ cs₃ := by
  intro fuel enough
  obtain ⟨fuel₂, enough₂, same⟩ := h fuel enough
  obtain ⟨fuel₃, enough₃, same'⟩ := h' fuel₂ enough₂
  exact ⟨fuel₃, enough₃, same.trans same'⟩

theorem blanks {b : List Char} (h : Blanks b) (s : State) (cs : List Char) :
    Feeds s (b ++ cs) s cs := by
  intro fuel enough
  rw [List.length_append] at enough
  obtain ⟨fuel, rfl⟩ : ∃ n, fuel = n + 1 := ⟨fuel - 1, by omega⟩
  refine ⟨fuel + 1, by omega, ?_⟩
  rw [feed, feed, List.dropWhile_append_of_pos h]

/-- The machine takes a token that begins here. -/
theorem token {c : Char} {text rest : List Char} {t : Token} (visible : Token.isSpace c = false)
    (h : Token.next? (c :: (text ++ rest)) = some (t, rest)) (step : s₁.step t = some s₂) :
    Feeds s₁ (c :: (text ++ rest)) s₂ rest := by
  intro fuel enough
  rw [List.length_cons, List.length_append] at enough
  obtain ⟨fuel, rfl⟩ : ∃ n, fuel = n + 1 := ⟨fuel - 1, by omega⟩
  refine ⟨fuel, by omega, ?_⟩
  have here : (c :: (text ++ rest)).dropWhile Token.isSpace = c :: (text ++ rest) :=
    List.dropWhile_cons_of_neg (by simp [visible])
  rw [feed, here]
  simp only [h, step]

theorem mark {c : Char} {t : Token} (h : (c, t) ∈ Token.marks) (step : s₁.step t = some s₂)
    (rest : List Char) : Feeds s₁ (c :: rest) s₂ rest := by
  obtain ⟨visible, read⟩ := Token.next?_mark h rest
  rw [← List.nil_append rest] at read ⊢
  exact token visible read step

end Feeds

namespace State

/-- A value may come next, and the containers that are open are then these. -/
def Awaits (s : State) (stack : List Frame) : Prop :=
  ∀ t, t ≠ .closeArray → s.step t = beginValue stack t

theorem awaits_value (stack : List Frame) : (value stack).Awaits stack := fun _ _ => rfl

theorem awaits_firstItem (stack : List Frame) :
    (firstItem stack).Awaits (.array [] :: stack) := by
  intro t no_close
  cases t with
  | closeArray => exact absurd rfl no_close
  | openObject | closeObject | openArray | comma | colon | null | bool | number | string => rfl

/-- A key may come next, after these members, the last one first. -/
def AwaitsKey (s : State) (members : List Member) (stack : List Frame) : Prop :=
  ∀ k, s.step (.string k) = some (.colon members k stack)

end State

theorem Token.apart_blanks {b : List Char} (h : Blanks b) {rest : List Char} (apart : Apart rest) :
    Apart (b ++ rest) := by
  cases b with
  | nil => exact apart
  | cons c b =>
    rintro _ ⟨⟩
    have space := h c (List.mem_cons_self ..)
    simp only [isSpace, Bool.or_eq_true, beq_iff_eq] at space
    rcases space with ((rfl | rfl) | rfl) | rfl
    all_goals decide

theorem Token.apart_cons {c : Char} (h : c ∈ [',', ']', '}']) (rest : List Char) :
    Apart (c :: rest) := by
  rintro _ ⟨⟩
  simp only [List.mem_cons, List.not_mem_nil, or_false] at h
  rcases h with rfl | rfl | rfl <;> decide

/-- How the machine goes on over what is written. -/
def Part.Fed : Part → List Char → Prop
  | .value v, text | .item v, text =>
    ∀ {s : State} {stack : List Frame} {rest : List Char}, s.Awaits stack → Token.Apart rest →
      Feeds s (text ++ rest) (.push v stack) rest
  | .items vs, text =>
    ∀ {s : State} {stack : List Frame} {before : List Json} (rest : List Char),
      s.Awaits (.array before :: stack) →
      Feeds s (text ++ ']' :: rest) (.push (.array (before.reverse ++ vs)) stack) rest
  | .member m, text =>
    ∀ {s : State} {stack : List Frame} {before : List Member} {rest : List Char},
      s.AwaitsKey before stack → Token.Apart rest →
      Feeds s (text ++ rest) (.next (.object (m :: before)) stack) rest
  | .members ms, text =>
    ∀ {s : State} {stack : List Frame} {before : List Member} (rest : List Char),
      s.AwaitsKey before stack →
      Feeds s (text ++ '}' :: rest) (.push (.object (before.reverse ++ ms)) stack) rest

theorem Feeds.string {k : Option (List Char)} {text : List Char} (h : StringText k text)
    {s₁ s₂ : State} (step : s₁.step (.string k) = some s₂) (rest : List Char) :
    Feeds s₁ (text ++ rest) s₂ rest := by
  have read := Token.next?_string h rest
  cases h with
  | text quotes | noText quotes => exact .token (by decide) read step

theorem Feeds.number {n : Numeral} {text rest : List Char} (h : NumeralText n text)
    (apart : Token.Apart rest) {s₁ s₂ : State} (step : s₁.step (.number n) = some s₂) :
    Feeds s₁ (text ++ rest) s₂ rest := by
  have read := Token.next?_number h apart
  have visible (c : Char) (digit : c.isDigit = true) : Token.isSpace c = false := by
    have other {d : Char} (hd : d.isDigit = false) : c ≠ d := ne_of_isDigit digit hd
    simp [Token.isSpace, other (d := ' ') rfl, other (d := '\t') rfl, other (d := '\n') rfl,
      other (d := '\r') rfl]
  cases h with
  | @positive whole _ f x _ w _ _ =>
    obtain ⟨d, ds, rfl⟩ := List.exists_cons_of_ne_nil w.1.1
    exact .token (visible d (w.1.2 d (List.mem_cons_self ..))) read step
  | negative w _ _ => exact .token (by decide) read step

/-- The machine takes whatever the grammar derives. -/
theorem Spells.fed {part : Part} {text : List Char} (h : Spells part text) : part.Fed text := by
  induction h with
  | null | true | false =>
    intro s stack rest awaits _
    exact .token (by decide) rfl (awaits _ nofun)
  | number numeral =>
    intro s stack rest awaits apart
    exact .number numeral apart (awaits _ nofun)
  | string str =>
    intro s stack rest awaits _
    exact .string str (awaits _ nofun) rest
  | noItems b =>
    intro s stack rest awaits _
    rw [List.cons_append, List.append_assoc]
    have opened := Feeds.mark (c := '[') (by decide) (awaits .openArray nofun)
    exact ((opened _).trans (.blanks b _ _)).trans (.mark (t := .closeArray) (by decide) rfl rest)
  | array _ ih =>
    intro s stack rest awaits _
    rw [List.cons_append, List.append_assoc]
    have opened := Feeds.mark (c := '[') (by decide) (awaits .openArray nofun)
    exact (opened _).trans (ih rest (State.awaits_firstItem stack))
  | noMembers b =>
    intro s stack rest awaits _
    rw [List.cons_append, List.append_assoc]
    have opened := Feeds.mark (c := '{') (by decide) (awaits .openObject nofun)
    exact ((opened _).trans (.blanks b _ _)).trans (.mark (t := .closeObject) (by decide) rfl rest)
  | object _ ih =>
    intro s stack rest awaits _
    rw [List.cons_append, List.append_assoc]
    have opened := Feeds.mark (c := '{') (by decide) (awaits .openObject nofun)
    have keyed : (State.firstKey stack).AwaitsKey [] stack := fun _ => rfl
    exact (opened _).trans (ih rest keyed)
  | item b₁ _ b₂ ih =>
    intro s stack rest awaits apart
    rw [List.append_assoc, List.append_assoc]
    -- Blanks behind a numeral keep it apart from what follows as well as a mark does.
    have begun := (Feeds.blanks b₁ s _).trans (ih awaits (Token.apart_blanks b₂ apart))
    exact begun.trans (.blanks b₂ _ rest)
  | @lastItem v _ _ ih =>
    intro s stack before rest awaits
    have one_more : before.reverse ++ [v] = (v :: before).reverse := List.reverse_cons.symm
    rw [one_more]
    have item := ih awaits (Token.apart_cons (c := ']') (by decide) rest)
    exact item.trans (.mark (t := .closeArray) (by decide) rfl rest)
  | @moreItems v vs _ more _ _ ih ih' =>
    intro s stack before rest awaits
    have one_more : before.reverse ++ v :: vs = (v :: before).reverse ++ vs := by simp
    rw [List.append_assoc, List.cons_append, one_more]
    have item := ih awaits (Token.apart_cons (c := ',') (by decide) (more ++ ']' :: rest))
    have comma := item.trans (.mark (t := .comma) (by decide) rfl _)
    exact comma.trans (ih' rest (State.awaits_value _))
  | @member k _ _ _ b text b₁ key b₂ _ ih =>
    intro s stack before rest awaits apart
    simp only [List.append_assoc, List.cons_append]
    have keyed := (Feeds.blanks b₁ s _).trans
      (.string key (awaits k) (b ++ ':' :: (text ++ rest)))
    have colon := (keyed.trans (.blanks b₂ _ _)).trans (.mark (t := .colon) (by decide) rfl _)
    exact colon.trans (ih (State.awaits_value _) apart)
  | @lastMember m _ _ ih =>
    intro s stack before rest awaits
    have one_more : before.reverse ++ [m] = (m :: before).reverse := List.reverse_cons.symm
    rw [one_more]
    have member := ih awaits (Token.apart_cons (c := '}') (by decide) rest)
    exact member.trans (.mark (t := .closeObject) (by decide) rfl rest)
  | @moreMembers m ms _ more _ _ ih ih' =>
    intro s stack before rest awaits
    have one_more : before.reverse ++ m :: ms = (m :: before).reverse ++ ms := by simp
    rw [List.append_assoc, List.cons_append, one_more]
    have member := ih awaits (Token.apart_cons (c := ',') (by decide) (more ++ '}' :: rest))
    have comma := member.trans (.mark (t := .comma) (by decide) rfl _)
    exact comma.trans (ih' rest fun _ => rfl)

/-- However a value is written, it is read. -/
theorem ofText?_of_spells {j : Json} {text : List Char} (h : Spells (.item j) text) :
    ofText? text = some j := by
  have at_end : Token.Apart [] := nofun
  have fed := h.fed (State.awaits_value []) at_end
  rw [List.append_nil] at fed
  obtain ⟨fuel, enough, same⟩ := fed (text.length + 1) (Nat.lt_succ_self _)
  obtain ⟨fuel, rfl⟩ : ∃ n, fuel = n + 1 := ⟨fuel - 1, by omega⟩
  rw [ofText?, same]
  rfl

end TestWatch.Json
