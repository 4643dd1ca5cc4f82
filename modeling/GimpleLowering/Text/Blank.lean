/-!
# Blank characters

The characters with the property White_Space: the ASCII blanks and line ends, the no-break space,
and the blanks and separators of the general punctuation block and of a few scripts.
-/

namespace GimpleLowering.Text

/-- The code points with the property White_Space, as closed ascending ranges. -/
def blankRanges : List (Nat × Nat) :=
  [(0x9, 0xd), (0x20, 0x20), (0x85, 0x85), (0xa0, 0xa0), (0x1680, 0x1680), (0x2000, 0x200a),
   (0x2028, 0x2029), (0x202f, 0x202f), (0x205f, 0x205f), (0x3000, 0x3000)]

/-- A blank of any script. -/
def isBlank (c : Char) : Bool :=
  blankRanges.any fun (first, last) => decide (first ≤ c.toNat) && decide (c.toNat ≤ last)

example : isBlank ' ' ∧ isBlank '\n' ∧ isBlank '\u3000' ∧ ¬ isBlank '\u200b' := by decide

end GimpleLowering.Text
