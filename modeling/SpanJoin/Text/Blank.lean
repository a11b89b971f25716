/-!
# White space and letter case

`isBlank` is the property `White_Space` (25 code points), `trim` removes it on both sides of a text,
however much there is (`trimChars_append`), and `lower` maps the 26 capital letters of ASCII and
nothing else. A set of code points is a list of closed ranges in ascending order; `inRanges` looks a
code point up.
-/

namespace SpanJoin.Text

/-- Is `n` in one of the closed ranges? They ascend, so the first range that ends at `n` or later
decides. -/
def inRanges : List (Nat × Nat) → Nat → Bool
  | [], _ => false
  | (first, last) :: rest, n => if n ≤ last then decide (first ≤ n) else inRanges rest n

/-- Closed ranges of the white space code points, ascending. -/
def blankRanges : List (Nat × Nat) :=
  [(0x9, 0xd), (0x20, 0x20), (0x85, 0x85), (0xa0, 0xa0), (0x1680, 0x1680), (0x2000, 0x200a),
   (0x2028, 0x2029), (0x202f, 0x202f), (0x205f, 0x205f), (0x3000, 0x3000)]

/-- Is the character white space? -/
def isBlank (c : Char) : Bool := inRanges blankRanges c.toNat

theorem isBlank_of_isWhitespace {c : Char} (h : c.isWhitespace = true) : isBlank c = true := by
  simp only [Char.isWhitespace, Bool.or_eq_true, decide_eq_true_eq] at h
  rcases h with ((rfl | rfl) | rfl) | rfl <;> rfl

theorem isBlank_of_isDigit {c : Char} (h : c.isDigit = true) : isBlank c = false := by
  simp only [Char.isDigit, Bool.and_eq_true, decide_eq_true_eq] at h
  have low : 48 ≤ c.toNat := h.1
  have high : c.toNat ≤ 57 := h.2
  simp only [isBlank, blankRanges, inRanges]
  grind

/-- The characters without the white space at their two ends. -/
def trimChars (cs : List Char) : List Char :=
  ((cs.dropWhile isBlank).reverse.dropWhile isBlank).reverse

/-- The text without the white space at its two ends. -/
def trim (s : String) : String := String.ofList (trimChars s.toList)

/-- White space at the ends of a text makes no difference. -/
theorem trimChars_append {before after : List Char} (hb : ∀ c ∈ before, isBlank c = true)
    (ha : ∀ c ∈ after, isBlank c = true) (cs : List Char) :
    trimChars (before ++ cs ++ after) = trimChars cs := by
  have blank : after.dropWhile isBlank = [] := by
    rw [← List.append_nil after, List.dropWhile_append_of_pos ha, List.dropWhile_nil]
  rw [trimChars, trimChars, List.append_assoc, List.dropWhile_append_of_pos hb,
    List.dropWhile_append]
  split
  · rename_i all
    rw [blank, List.isEmpty_iff.1 all]
  · rw [List.reverse_append, List.dropWhile_append_of_pos]
    exact fun c hc => ha c (List.mem_reverse.1 hc)

/-- A text without white space stays as it is. -/
theorem trimChars_eq_self {cs : List Char} (h : ∀ c ∈ cs, isBlank c = false) :
    trimChars cs = cs := by
  have keep {ds : List Char} (hd : ∀ c ∈ ds, isBlank c = false) : ds.dropWhile isBlank = ds := by
    cases ds with
    | nil => rfl
    | cons d ds => exact List.dropWhile_cons_of_neg (by simp [hd d List.mem_cons_self])
  rw [trimChars, keep h, keep fun c hc => h c (List.mem_reverse.1 hc), List.reverse_reverse]

/-- The text with the capital letters of ASCII made small. -/
def lower (s : String) : String := String.ofList (s.toList.map Char.toLower)

end SpanJoin.Text
