import TestWatch.Proofs.Number.Digits
import TestWatch.Proofs.Time.Calendar
import TestWatch.Time.Rfc3339

/-!
# Spellings of timestamps

One timestamp may be written in many ways. A letter or a blank separates date and time of day,
zeros may or may not be written at the end of the fraction, and no offset has more than one sign.
All of these are read as that timestamp.
-/

namespace TestWatch

namespace Timestamp

inductive FractionText : Nat → List Char → Prop
  | none : FractionText 0 []
  | digits {ds : List Char} : ds ≠ [] → ds.length ≤ 9 → (∀ c ∈ ds, c.isDigit = true) →
      FractionText (digitsValue ds * 10 ^ (9 - ds.length)) ('.' :: ds)

def clockText (h m : Nat) : List Char := paddedDecimal 2 h ++ ':' :: paddedDecimal 2 m

inductive ZoneText : Int → List Char → Prop
  | utc {c : Char} : c ∈ ['Z', 'z'] → ZoneText 0 [c]
  | ahead {h m : Nat} : h < 24 → m < 60 → ZoneText (h * 3600 + m * 60 : Nat) ('+' :: clockText h m)
  | behind {h m : Nat} :
      h < 24 → m < 60 → ZoneText (-(h * 3600 + m * 60 : Nat)) ('-' :: clockText h m)

def dateText (d : Date) : List Char :=
  paddedDecimal 4 d.year.toNat ++ '-' :: (paddedDecimal 2 d.month ++ '-' :: paddedDecimal 2 d.day)

/-- The date and the time of day are those at the offset. -/
inductive Spells (t : Timestamp) : List Char → Prop
  | intro {d : Date} {h m s : Nat} {separator : Char} {fraction zone : List Char} :
      d.Valid → 0 ≤ d.year → d.year ≤ 9999 → h < 24 → m < 60 → s < 60 →
      separator ∈ ['T', 't', ' '] → FractionText t.nano fraction → ZoneText t.offset zone →
      t.second + t.offset = d.toDay * daySeconds + (h * 3600 + m * 60 + s : Nat) →
      Spells t (dateText d ++ separator :: (clockText h m ++ ':' :: (paddedDecimal 2 s ++
        (fraction ++ zone))))

section Read

open Reader

variable {rest : List Char}

theorem trimStart_cons {c : Char} (h : isBlank c = false) (cs : List Char) :
    Text.trimStart (c :: cs) = c :: cs :=
  List.dropWhile_cons_of_neg (by simp [h])

theorem trimStart_paddedDecimal {width n : Nat} (positive : 0 < width) (h : n < 10 ^ width) :
    Text.trimStart (paddedDecimal width n ++ rest) = paddedDecimal width n ++ rest := by
  obtain ⟨d, ds, eq, digit⟩ := paddedDecimal_eq_cons positive h
  rw [eq, List.cons_append, trimStart_cons (not_blank_of_isDigit digit)]

theorem number?_paddedDecimal {width n : Nat} (positive : 0 < width) (h : n < 10 ^ width) :
    number? width (paddedDecimal width n ++ rest) = some (n, rest) := by
  have long := length_paddedDecimal positive h
  have digits : ((paddedDecimal width n ++ rest).takeWhile Char.isDigit).take width =
      paddedDecimal width n := by
    rw [List.takeWhile_append_of_pos fun _ => isDigit_of_mem_paddedDecimal]
    exact List.take_left' long
  have some_digit : paddedDecimal width n ≠ [] := by
    rintro empty
    simp [empty] at long
    omega
  simp [number?, digits, some_digit, digitsValue_paddedDecimal]

theorem field?_paddedDecimal {lo hi n : Nat} (least : lo ≤ n) (greatest : n ≤ hi) (h : n < 100) :
    field? lo hi (paddedDecimal 2 n ++ rest) = some (n, rest) := by
  have read : number? 2 (paddedDecimal 2 n ++ rest) = some (n, rest) :=
    number?_paddedDecimal (by decide) h
  have trimmed : Text.trimStart (paddedDecimal 2 n ++ rest) = paddedDecimal 2 n ++ rest :=
    trimStart_paddedDecimal (by decide) h
  simp only [field?, trimmed, read, Option.bind_eq_bind, Option.bind_some]
  exact if_pos ⟨least, greatest⟩

theorem year?_paddedDecimal {n : Nat} (h : n < 10000) :
    year? (paddedDecimal 4 n ++ rest) = some ((n : Int), rest) := by
  have read : number? 4 (paddedDecimal 4 n ++ rest) = some (n, rest) :=
    number?_paddedDecimal (by decide) h
  obtain ⟨d, ds, eq, digit⟩ := paddedDecimal_eq_cons (by decide : 0 < 4) h
  rw [eq] at read
  have no_minus : d ≠ '-' := ne_of_isDigit digit rfl
  have no_plus : d ≠ '+' := ne_of_isDigit digit rfl
  rw [year?, eq, List.cons_append, trimStart_cons (not_blank_of_isDigit digit)]
  simp only [List.cons_append] at read
  split
  · simp_all
  · simp_all
  · simp [read]

theorem mark?_self (c : Char) (cs : List Char) : mark? c (c :: cs) = some cs := by simp [mark?]

theorem date?_dateText {d : Date} (valid : d.Valid) (least : 0 ≤ d.year)
    (greatest : d.year ≤ 9999) :
    date? (dateText d ++ rest) = some (d, rest) := by
  obtain ⟨-, -, month_pos, month_le, day_pos, day_le⟩ := id valid
  have day_le' : d.day ≤ 31 := Nat.le_trans day_le (Date.daysInMonth_le _ month_pos month_le)
  have year_eq : ((d.year.toNat : Nat) : Int) = d.year := Int.toNat_of_nonneg least
  have dash (cs : List Char) : Text.trimStart ('-' :: cs) = '-' :: cs :=
    trimStart_cons (by decide) cs
  simp only [date?, dateText, List.append_assoc, List.cons_append, dash, mark?_self,
    year?_paddedDecimal (show d.year.toNat < 10000 by omega),
    field?_paddedDecimal month_pos month_le (by omega),
    field?_paddedDecimal day_pos day_le' (by omega), Option.bind_eq_bind, Option.bind_some, year_eq]
  exact if_pos valid

theorem fraction?_fractionText {n : Nat} {fraction : List Char} (h : FractionText n fraction)
    (ends : ∀ c ∈ rest.head?, c.isDigit = false ∧ c ≠ '.') :
    fraction? (fraction ++ rest) = some (n, rest) := by
  cases h with
  | none =>
    cases rest with
    | nil => rfl
    | cons c rest =>
      rw [List.nil_append, fraction?]
      simpa using (ends c rfl).2
  | @digits ds some_digit nine digits =>
    have taken := (takeWhile_digits digits fun c hc => (ends c hc).1).1
    simp [fraction?, taken, some_digit, List.take_of_length_le nine]

theorem time?_clockText {h m s n : Nat} (hour : h < 24) (minute : m < 60) (second : s < 60)
    {fraction : List Char} (hf : FractionText n fraction)
    (ends : ∀ c ∈ rest.head?, c.isDigit = false ∧ c ≠ '.') :
    time? (clockText h m ++ ':' :: (paddedDecimal 2 s ++ (fraction ++ rest))) =
      some ((h * 3600 + m * 60 + s, n), rest) := by
  have colon (cs : List Char) : Text.trimStart (':' :: cs) = ':' :: cs :=
    trimStart_cons (by decide) cs
  have no_leap : s ≠ 60 := by omega
  simp only [time?, clockText, List.append_assoc, List.cons_append, colon, mark?_self,
    field?_paddedDecimal (Nat.zero_le h) (show h ≤ 23 by omega) (by omega),
    field?_paddedDecimal (Nat.zero_le m) (show m ≤ 59 by omega) (by omega),
    field?_paddedDecimal (Nat.zero_le s) (show s ≤ 60 by omega) (by omega),
    fraction?_fractionText hf ends, Option.bind_eq_bind, Option.bind_some, no_leap, if_false,
    Nat.add_zero]

theorem twoDigits?_paddedDecimal {n : Nat} (h : n < 100) :
    twoDigits? (paddedDecimal 2 n ++ rest) = some (n, rest) := by
  obtain ⟨a, b, eq⟩ := List.length_eq_two.1 (length_paddedDecimal (by decide : 0 < 2) h)
  have digits : ∀ c ∈ [a, b], c.isDigit = true := by
    rw [← eq]
    exact fun c => isDigit_of_mem_paddedDecimal
  have value : digitsValue [a, b] = n := by rw [← eq, digitsValue_paddedDecimal]
  simp [twoDigits?, eq, digits a (by simp), digits b (by simp), value]

theorem hoursMinutes?_clockText {h m : Nat} (hour : h < 24) (minute : m < 60) :
    hoursMinutes? (clockText h m) = some (h * 3600 + m * 60, []) := by
  obtain ⟨d, ds, eq, digit⟩ :=
    paddedDecimal_eq_cons (by decide : 0 < 2) (show m < 10 ^ 2 by omega)
  have no_colon : d ≠ ':' := ne_of_isDigit digit rfl
  have between : (':' :: paddedDecimal 2 m).dropWhile (fun c => c == ':' || isBlank c) =
      paddedDecimal 2 m := by
    simp [eq, not_blank_of_isDigit digit, no_colon]
  have read : twoDigits? (paddedDecimal 2 m) = some (m, []) := by
    rw [← List.append_nil (paddedDecimal 2 m)]
    exact twoDigits?_paddedDecimal (by omega)
  simp only [hoursMinutes?, clockText, twoDigits?_paddedDecimal (show h < 100 by omega), between,
    read, Option.bind_eq_bind, Option.bind_some]
  exact if_pos minute

theorem offset?_zoneText {n : Int} {zone : List Char} (h : ZoneText n zone) :
    offset? zone = some (n, []) := by
  cases h with
  | utc letter =>
    simp only [List.mem_cons, List.not_mem_nil, or_false] at letter
    rcases letter with rfl | rfl <;> rfl
  | ahead hour minute =>
    have sign : Char.toUpper '+' = '+' := by decide
    simp [offset?, hoursMinutes?_clockText hour minute, sign]
  | behind hour minute =>
    have sign : Char.toUpper '-' = '-' := by decide
    have negated (i : Int) : i.neg = -i := rfl
    simp [offset?, hoursMinutes?_clockText hour minute, sign, negated]

end Read

theorem zoneText_head {n : Int} {zone : List Char} (h : ZoneText n zone) :
    ∃ c cs, zone = c :: cs ∧ c ∈ ['Z', 'z', '+', '-'] := by
  cases h with
  | utc letter =>
    simp only [List.mem_cons, List.not_mem_nil, or_false] at letter
    rcases letter with rfl | rfl
    · exact ⟨_, _, rfl, by decide⟩
    · exact ⟨_, _, rfl, by decide⟩
  | ahead _ _ => exact ⟨_, _, rfl, by decide⟩
  | behind _ _ => exact ⟨_, _, rfl, by decide⟩

theorem natAbs_lt_of_zoneText {n : Int} {zone : List Char} (h : ZoneText n zone) :
    n.natAbs < 86400 := by
  cases h with
  | utc => decide
  | ahead hour minute => omega
  | behind hour minute => omega

/-- Years of four digits are far from the ends of the range. -/
theorem inRange_of_year {d : Date} (valid : d.Valid) (least : 0 ≤ d.year)
    (greatest : d.year ≤ 9999) {s : Int} (near : (s - d.toDay * daySeconds).natAbs < 172800) :
    InRange s := by
  have first : minSecond = -8334601228800 := by decide
  have last : endSecond = 8210266876800 := by decide
  obtain ⟨-, -, month_pos, month_le, day_pos, day_le⟩ := valid
  have day_le' := Nat.le_trans day_le (Date.daysInMonth_le d.year month_pos month_le)
  have months : ∀ leap : Bool, ∀ month < 13, Date.daysBeforeMonth leap month ≤ 335 := by decide
  have month := months (Date.isLeapYear d.year) d.month (by omega)
  have day : -719528 ≤ d.toDay ∧ d.toDay < 3000000 := by
    simp only [Date.toDay, Date.epoch, Date.daysBeforeYear]
    omega
  rw [daySeconds] at near
  rw [InRange, first, last]
  omega

/-- However a timestamp is written, it is read. -/
theorem ofText?_of_spells {t : Timestamp} {text : List Char} (h : Spells t text) :
    ofText? text = some t := by
  obtain @⟨d, h, m, s, separator, fraction, zone, valid, least, greatest, hour, minute, second,
    is_separator, hf, hz, point⟩ := h
  obtain ⟨c, cs, zone_eq, sign⟩ := zoneText_head hz
  have signs : ∀ c ∈ ['Z', 'z', '+', '-'], c.isDigit = false ∧ c ≠ '.' ∧ isBlank c = false := by
    simp [isBlank]
  have zone_begins := signs c sign
  have separated (cs : List Char) : Reader.separator? (separator :: cs) = some cs := by
    simp only [List.mem_cons, List.not_mem_nil, or_false] at is_separator
    rcases is_separator with rfl | rfl | rfl <;> rfl
  have ends : ∀ c ∈ zone.head?, c.isDigit = false ∧ c ≠ '.' := by
    rw [zone_eq]
    rintro _ ⟨⟩
    exact ⟨zone_begins.1, zone_begins.2.1⟩
  have trimmed : Text.trimStart zone = zone := by
    rw [zone_eq, trimStart_cons zone_begins.2.2]
  have small := natAbs_lt_of_zoneText hz
  have point' : d.toDay * daySeconds + (h * 3600 + m * 60 + s : Nat) - t.offset = t.second := by
    omega
  have near : (t.second - d.toDay * daySeconds).natAbs < 172800 := by omega
  simp only [ofText?, date?_dateText valid least greatest, separated,
    time?_clockText hour minute second hf ends, trimmed, offset?_zoneText hz, Text.trimStart_nil,
    List.isEmpty_nil, if_true, ofLocal?, point', Option.bind_eq_bind, Option.bind_some]
  exact if_pos ⟨small, inRange_of_year valid least greatest near⟩

/-- The date at the offset. -/
def localDate (t : Timestamp) : Date := Date.ofDay ((t.second + t.offset) / daySeconds)

/-- Not in a leap second, in a year of four digits, at an offset of whole minutes under a day. -/
structure Plain (t : Timestamp) : Prop where
  nano : t.nano < nanosPerSecond
  year : 0 ≤ t.localDate.year ∧ t.localDate.year ≤ 9999
  minutes : t.offset % 60 = 0
  offset : t.offset.natAbs < 86400

theorem zoneText_offsetText {n : Int} (minutes : n % 60 = 0) (offset : n.natAbs < 86400) :
    ZoneText n (offsetText n) := by
  have hour : n.natAbs / 60 / 60 < 24 := by omega
  have minute : n.natAbs / 60 % 60 < 60 := by omega
  rw [offsetText]
  split
  · have eq : n = -(n.natAbs / 60 / 60 * 3600 + n.natAbs / 60 % 60 * 60 : Nat) := by omega
    have text := ZoneText.behind hour minute
    rwa [← eq] at text
  · have eq : n = (n.natAbs / 60 / 60 * 3600 + n.natAbs / 60 % 60 * 60 : Nat) := by omega
    have text := ZoneText.ahead hour minute
    rwa [← eq] at text

theorem spells_toText {t : Timestamp} (h : t.Plain) : Spells t t.toText := by
  obtain ⟨nano, ⟨least, greatest⟩, minutes, offset⟩ := h
  have valid : t.localDate.Valid := by
    apply Date.valid_ofDay
    · exact Int.le_trans (by decide) least
    · exact Int.le_trans greatest (by decide)
  have no_leap : t.isLeapSecond = false := by simp [isLeapSecond, nano]
  have fraction : FractionText t.nano ('.' :: paddedDecimal 9 t.nano) := by
    have long : (paddedDecimal 9 t.nano).length = 9 := length_paddedDecimal (by decide) nano
    have some_digit : paddedDecimal 9 t.nano ≠ [] := by
      intro empty
      simp [empty] at long
    have text := FractionText.digits some_digit (Nat.le_of_eq long) fun _ =>
      isDigit_of_mem_paddedDecimal
    simpa [long, digitsValue_paddedDecimal] using text
  have year : yearText t.localDate.year = paddedDecimal 4 t.localDate.year.toNat :=
    if_pos ⟨least, greatest⟩
  generalize of_day : ((t.second + t.offset) % daySeconds).toNat = s
  have within : s < 86400 := by
    simp only [daySeconds] at of_day
    omega
  have point : t.second + t.offset = t.localDate.toDay * daySeconds +
      (s / 3600 * 3600 + s / 60 % 60 * 60 + s % 60 : Nat) := by
    rw [localDate, Date.toDay_ofDay]
    simp only [daySeconds] at of_day ⊢
    omega
  have text : t.toText = dateText t.localDate ++ 'T' :: (clockText (s / 3600) (s / 60 % 60) ++
      ':' :: (paddedDecimal 2 (s % 60) ++ (('.' :: paddedDecimal 9 t.nano) ++
        offsetText t.offset))) := by
    have here : Date.ofDay ((t.second + t.offset) / daySeconds) = t.localDate := rfl
    simp [toText, here, of_day, year, dateText, clockText, no_leap, Nat.mod_eq_of_lt nano]
  rw [text]
  exact .intro valid least greatest (by omega) (by omega) (by omega) (by decide) fraction
    (zoneText_offsetText minutes offset) point

end Timestamp

end TestWatch
