import SExprNav.Text.CodePoints

/-!
# Blank characters

The characters that separate tokens: the separators of Unicode together with the control characters
that move the writing position.
-/

namespace SExprNav.Text

/-- The blank code points. -/
def blanks : CodePoints :=
  [(0x09, 0x0d), (0x1c, 0x20), (0x85, 0x85), (0xa0, 0xa0), (0x1680, 0x1680), (0x2000, 0x200a),
   (0x2028, 0x2029), (0x202f, 0x202f), (0x205f, 0x205f), (0x3000, 0x3000)]

/-- Whether a character separates tokens. -/
def isBlank (c : Char) : Bool := blanks.contains c

theorem isBlank_newline : isBlank '\n' = true := by decide

end SExprNav.Text
