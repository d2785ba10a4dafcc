/-!
# White space

The characters with the Unicode property White_Space, and texts that hold nothing else.
-/

namespace PrioritySampling

namespace Text

/-- The character is white space. -/
def isWhiteSpace (c : Char) : Bool :=
  let n := c.toNat
  (9 ≤ n && n ≤ 13) || n == 0x20 || n == 0x85 || n == 0xa0 || n == 0x1680 ||
    (0x2000 ≤ n && n ≤ 0x200a) || n == 0x2028 || n == 0x2029 || n == 0x202f || n == 0x205f ||
    n == 0x3000

/-- The text shows nothing: all of it is white space. -/
def isBlank (text : String) : Bool :=
  text.toList.all isWhiteSpace

/-- What core counts as white space is white space here. -/
theorem isWhiteSpace_of_isWhitespace {c : Char} (h : c.isWhitespace = true) :
    isWhiteSpace c = true := by
  simp only [Char.isWhitespace, Bool.or_eq_true, decide_eq_true_eq] at h
  rcases h with ((rfl | rfl) | rfl) | rfl <;> rfl

end Text

end PrioritySampling
