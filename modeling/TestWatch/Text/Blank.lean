/-!
# Blank characters

The characters with the Unicode property White_Space, and the trimming built on them. A text is
a list of characters throughout.
-/

namespace TestWatch

/-- The Unicode property White_Space. -/
def isBlank (c : Char) : Bool :=
  let n := c.toNat
  (9 ≤ n && n ≤ 13) || n == 0x20 || n == 0x85 || n == 0xA0 || n == 0x1680 ||
    (0x2000 ≤ n && n ≤ 0x200A) || n == 0x2028 || n == 0x2029 || n == 0x202F || n == 0x205F ||
    n == 0x3000

namespace Text

def trimStart (cs : List Char) : List Char := cs.dropWhile isBlank

/-- The text without the characters at its end that satisfy `p`. -/
def dropEndWhile (p : Char → Bool) (cs : List Char) : List Char :=
  (cs.reverse.dropWhile p).reverse

def trimEnd (cs : List Char) : List Char := dropEndWhile isBlank cs

def trim (cs : List Char) : List Char := trimEnd (trimStart cs)

@[simp] theorem trimStart_nil : trimStart [] = [] := rfl

/-- What is cut from the end satisfies `p`, and the rest is a part in front. -/
theorem dropEndWhile_append (p : Char → Bool) (cs : List Char) :
    ∃ tail, (∀ c ∈ tail, p c) ∧ dropEndWhile p cs ++ tail = cs := by
  refine ⟨(cs.reverse.takeWhile p).reverse, ?_, ?_⟩
  · intro c hc
    have := List.all_takeWhile (p := p) (l := cs.reverse)
    exact List.all_eq_true.1 this c (by simpa using hc)
  · rw [dropEndWhile, ← List.reverse_append, List.takeWhile_append_dropWhile, List.reverse_reverse]

end Text

end TestWatch
