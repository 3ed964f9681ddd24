/-!
# Blank characters

The characters with the Unicode property `White_Space`, and the removal of blanks at both ends
of a text.
-/

namespace WebToken

namespace Text

/-- The ranges of code points with the property `White_Space`, ends included. -/
def blankRanges : List (Nat × Nat) :=
  [(0x09, 0x0D), (0x20, 0x20), (0x85, 0x85), (0xA0, 0xA0), (0x1680, 0x1680), (0x2000, 0x200A),
    (0x2028, 0x2029), (0x202F, 0x202F), (0x205F, 0x205F), (0x3000, 0x3000)]

/-- Whether a character is blank. -/
def isBlank (c : Char) : Bool :=
  blankRanges.any fun (low, high) => low ≤ c.toNat && c.toNat ≤ high

/-- The characters from the first to the last one that is not blank. -/
def trimChars (text : List Char) : List Char :=
  ((text.dropWhile isBlank).reverse.dropWhile isBlank).reverse

/-- The text without the blanks at its ends. -/
def trim (text : String) : String :=
  String.ofList (trimChars text.toList)

/-- No blank is left at the front of a trimmed text. -/
theorem isBlank_head_trimChars {text : List Char} {c : Char} {rest : List Char}
    (h : trimChars text = c :: rest) : isBlank c = false := by
  have front : ∀ (l : List Char) (d : Char) (r : List Char),
      l.dropWhile isBlank = d :: r → isBlank d = false := by
    intro l
    induction l with
    | nil => intro d r h; simp at h
    | cons x l ih =>
      intro d r h
      by_cases hx : isBlank x = true
      · rw [List.dropWhile_cons_of_pos hx] at h; exact ih d r h
      · rw [List.dropWhile_cons_of_neg hx] at h
        cases h
        simpa using hx
  -- dropping at the back keeps a prefix, so the first character is the one dropping at the front left
  obtain ⟨t, ht⟩ : trimChars text <+: text.dropWhile isBlank := by
    have := List.dropWhile_suffix (l := (text.dropWhile isBlank).reverse) isBlank
    simpa [trimChars] using List.reverse_prefix.2 this
  rw [h] at ht
  exact front text c (rest ++ t) (by rw [← ht]; rfl)

end Text

end WebToken
