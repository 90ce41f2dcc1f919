import TestWatch.Stream.Input
import Mathlib.Data.List.TakeWhile

/-!
# Decoding line by line

An input is split into lines before it is decoded. It may as well be decoded first: a newline ends
any character that has begun, and no other byte makes one, so invalid bytes at the end of a line or
at the beginning of the next do not matter. Both ways give the same lines.
-/

namespace TestWatch

section Split

variable {α : Type} {p : α → Bool}

theorem splitAfter_of_none {xs : List α} (h : ∀ x ∈ xs, p x = false) (hx : xs ≠ []) :
    splitAfter p xs = [xs] := by
  have rest : xs.dropWhile (fun x => !p x) = [] := by
    rw [List.dropWhile_eq_nil_iff]
    simpa using h
  have some_here : xs.isEmpty = false := by simpa using hx
  unfold splitAfter
  split
  · simp [some_here]
  · rename_i heq
    rw [rest] at heq
    cases heq

theorem splitAfter_append {xs : List α} (h : ∀ x ∈ xs, p x = false) {y : α} (hy : p y = true)
    (ys : List α) : splitAfter p (xs ++ y :: ys) = (xs ++ [y]) :: splitAfter p ys := by
  have before : ∀ x ∈ xs, (!p x) = true := by simpa using h
  have rest : (xs ++ y :: ys).dropWhile (fun x => !p x) = y :: ys := by
    rw [List.dropWhile_append_of_pos before]
    simp [hy]
  have front : (xs ++ y :: ys).takeWhile (fun x => !p x) = xs := by
    rw [List.takeWhile_append_of_pos before]
    simp [hy]
  rw [splitAfter]
  split
  · rename_i heq
    rw [rest] at heq
    cases heq
  · rename_i z zs heq
    rw [rest] at heq
    cases heq
    rw [front]

/-- The parts of a list one after the other, by its first element with `p`. -/
theorem exists_splitAfter (p : α → Bool) (xs : List α) :
    (∀ x ∈ xs, p x = false) ∨
      ∃ front y rest, (∀ x ∈ front, p x = false) ∧ p y = true ∧ xs = front ++ y :: rest := by
  induction xs with
  | nil => exact .inl (by simp)
  | cons x xs ih =>
    cases hx : p x with
    | true => exact .inr ⟨[], x, xs, by simp, hx, rfl⟩
    | false =>
      rcases ih with none_here | ⟨front, y, rest, hf, hy, rfl⟩
      · exact .inl (by simpa [hx] using none_here)
      · exact .inr ⟨x :: front, y, rest, by simpa [hx] using hf, hy, rfl⟩

end Split

namespace Utf8

/-- The next byte lies above all single-byte characters, and the bits do not end as zero. -/
structure Begun.Proper (s : Begun) : Prop where
  above : 0x80 ≤ s.least
  long : s.bits = 0 → 0x80 < s.least
  last : s.lacks = 1 → 0 < s.bits

theorem proper_begin? {b : Nat} {s : Begun} (h : begin? b = some s) : s.Proper := by
  unfold begin? at h
  repeat' split at h
  all_goals simp only [reduceCtorEq, Option.some.injEq] at h
  all_goals rw [← h]
  all_goals refine ⟨?_, ?_, ?_⟩
  all_goals dsimp only
  all_goals omega

theorem newline_of_ofNat {n : Nat} (h : Char.ofNat n = '\n') : n = 10 := by
  by_cases valid : n.isValidChar
  · rw [Char.ofNat, dif_pos valid] at h
    exact congrArg Char.toNat h
  · rw [Char.ofNat, dif_neg valid] at h
    exact absurd h (by decide)

theorem enter_of_ne {b : Nat} (h : b ≠ 10) :
    '\n' ∉ (enter b).1 ∧ ∀ t ∈ (enter b).2, t.Proper := by
  unfold enter
  split
  · refine ⟨fun hm => h ?_, by simp⟩
    exact newline_of_ofNat (List.mem_singleton.1 hm).symm
  · split
    · rename_i s hs
      refine ⟨by simp, fun t ht => ?_⟩
      cases ht
      exact proper_begin? hs
    · exact ⟨by decide, by simp⟩

/-- A byte other than a newline makes no newline, and keeps the state proper. -/
theorem step_of_ne {s : Option Begun} (hs : ∀ t ∈ s, t.Proper) {b : Nat} (h : b ≠ 10) :
    '\n' ∉ (step s b).1 ∧ ∀ t ∈ (step s b).2, t.Proper := by
  cases s with
  | none => exact enter_of_ne h
  | some s =>
    obtain ⟨above, long, last⟩ := hs s rfl
    have entered := enter_of_ne h
    unfold step
    simp only
    split
    · rename_i inside
      have grows : 0 < s.bits * 64 + (b - 0x80) := by
        rcases Nat.eq_zero_or_pos s.bits with zero | pos
        · have := long zero
          omega
        · omega
      split
      · rename_i one
        have := last one
        refine ⟨fun hm => ?_, by simp⟩
        have number := newline_of_ofNat (List.mem_singleton.1 hm).symm
        omega
      · refine ⟨by simp, fun t ht => ?_⟩
        rw [← Option.some.inj ht]
        exact ⟨Nat.le_refl _, fun zero => absurd zero (Nat.ne_of_gt grows), fun _ => grows⟩
    · refine ⟨?_, entered.2⟩
      rw [List.mem_cons, not_or]
      exact ⟨by decide, entered.1⟩

theorem newline_notMem_decodeFrom {s : Option Begun} (hs : ∀ t ∈ s, t.Proper) {bs : List UInt8}
    (h : ∀ b ∈ bs, b ≠ Feed.newline) : '\n' ∉ decodeFrom s bs := by
  induction bs generalizing s with
  | nil =>
    cases s with
    | none => exact List.not_mem_nil
    | some s => exact (by decide : '\n' ∉ [replacement])
  | cons b bs ih =>
    have number : b.toNat ≠ 10 := fun hb => h b List.mem_cons_self (UInt8.toNat_inj.1 hb)
    obtain ⟨none_here, proper⟩ := step_of_ne hs number
    rw [decodeFrom, List.mem_append, not_or]
    exact ⟨none_here, ih proper fun c hc => h c (List.mem_cons_of_mem _ hc)⟩

/-- A newline ends whatever has begun, and what follows is decoded by itself. -/
theorem decodeFrom_append_newline {s : Option Begun} (hs : ∀ t ∈ s, t.Proper) {bs : List UInt8}
    (h : ∀ b ∈ bs, b ≠ Feed.newline) (rest : List UInt8) :
    decodeFrom s (bs ++ Feed.newline :: rest) = decodeFrom s bs ++ '\n' :: decode rest := by
  induction bs generalizing s with
  | nil =>
    have newline : step s Feed.newline.toNat = _ :=
      step_ascii s (b := 10) (by decide) fun t ht => (hs t ht).above
    change (step s Feed.newline.toNat).1 ++ decodeFrom (step s Feed.newline.toNat).2 rest = _
    rw [newline, decodeFrom, List.append_assoc]
    rfl
  | cons b bs ih =>
    have number : b.toNat ≠ 10 := fun hb => h b List.mem_cons_self (UInt8.toNat_inj.1 hb)
    obtain ⟨_, proper⟩ := step_of_ne hs number
    rw [List.cons_append, decodeFrom, decodeFrom,
      ih proper fun c hc => h c (List.mem_cons_of_mem _ hc), List.append_assoc]

theorem decodeFrom_ne_nil {s : Option Begun} {bs : List UInt8} (h : s.isSome ∨ bs ≠ []) :
    decodeFrom s bs ≠ [] := by
  induction bs generalizing s with
  | nil => simp_all [decodeFrom]
  | cons b bs ih =>
    -- A byte completes a character, or one is under way after it.
    have progress : (step s b.toNat).1 ≠ [] ∨ (step s b.toNat).2.isSome := by
      have entered : (enter b.toNat).1 ≠ [] ∨ (enter b.toNat).2.isSome := by
        unfold enter
        repeat' split
        all_goals simp
      cases s with
      | none => exact entered
      | some s =>
        unfold step
        simp only
        repeat' split
        all_goals simp
    rw [decodeFrom]
    intro empty
    obtain ⟨here, later⟩ := List.append_eq_nil_iff.1 empty
    rcases progress with some_here | begun
    · exact some_here here
    · exact ih (.inl begun) later

/-- Decoding the lines of an input gives the lines of the decoded input. -/
theorem map_decode_splitAfter (bs : List UInt8) :
    (splitAfter (· == Feed.newline) bs).map decode = splitAfter (· == '\n') (decode bs) := by
  induction hn : bs.length using Nat.strong_induction_on generalizing bs with
  | _ n ih =>
    have proper : ∀ t ∈ (none : Option Begun), t.Proper := by simp
    -- A newline byte is a newline whatever stands before it, so lines may be decoded one by one.
    rcases exists_splitAfter (· == Feed.newline) bs with one_line | ⟨front, y, rest, hf, hy, rfl⟩
    · have no_newline : '\n' ∉ decode bs := newline_notMem_decodeFrom proper fun b hb => by
        simpa using one_line b hb
      by_cases hb : bs = []
      · subst hb
        simp [splitAfter]
      · have no_end : ∀ c ∈ decode bs, (c == '\n') = false := by
          intro c hc
          simpa using ne_of_mem_of_not_mem hc no_newline
        rw [splitAfter_of_none one_line hb,
          splitAfter_of_none no_end (decodeFrom_ne_nil (.inr hb))]
        rfl
    · obtain rfl : y = Feed.newline := by simpa using hy
      have other : ∀ b ∈ front, b ≠ Feed.newline := fun b hb => by simpa using hf b hb
      have no_newline := newline_notMem_decodeFrom proper other
      have first_line : decode (front ++ [Feed.newline]) = decode front ++ ['\n'] :=
        decodeFrom_append_newline proper other []
      have whole : decode (front ++ Feed.newline :: rest) = decode front ++ '\n' :: decode rest :=
        decodeFrom_append_newline proper other rest
      have shorter : rest.length < n := by
        rw [← hn, List.length_append, List.length_cons]
        omega
      have no_end : ∀ c ∈ decode front, (c == '\n') = false := by
        intro c hc
        simpa using ne_of_mem_of_not_mem hc no_newline
      rw [splitAfter_append hf hy, whole, splitAfter_append no_end (by rfl), List.map_cons,
        first_line, ih _ shorter rest rfl]

end Utf8

/-- The lines that count, taken from the text of the whole input. -/
theorem Feed.lines_of_complete {f : Feed} (h : f.ending = .complete) :
    f.lines = ((splitAfter (· == '\n') (Utf8.decode f.bytes)).map fun part =>
      Line.read (String.ofList part)).filter fun l => !l.isBlank := by
  rw [lines, rows, h, ← Utf8.map_decode_splitAfter, List.map_map]
  rfl

end TestWatch
