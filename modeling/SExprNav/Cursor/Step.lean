import SExprNav.Cursor
import SExprNav.Move

/-!
# Steps

A cursor steps by whole expressions in the four directions. A step that is not possible has no result.
`Cursor.go` takes up to a number of steps in a direction and stops at the first that is not possible.

* `Cursor.pos_next?_lt`   a step forward moves to the right
* `Cursor.pos_previous?_lt`, `Cursor.pos_leave?_lt`   steps backward and outward move to the left
-/

namespace SExprNav.Cursor

variable {doc : Document}

/-- Whether the cursor is on a comment at the start of a line. -/
def onCommentLine (c : Cursor doc) : Bool := c.atLineStart && c.onComment

/-- Whether the cursor is on an opening delimiter after which no expression can be skipped. -/
def onEmptyList (c : Cursor doc) : Bool :=
  c.onOpening && ((doc.cursorAt (c.pos + 1)).skipForward 1).isNone

/-- The start of the expression that ends at the cursor, where the cursor has got by skipping. -/
def backUp (c : Cursor doc) : Cursor doc := (c.skipBackward 1).getD c

/-- After the expression that a step forward leads to, as far as skipping can tell: after the second
one from an expression, after the first one from between two. From the last expression of a level it
is that expression itself which is skipped. -/
def pastNext? (c : Cursor doc) : Option (Cursor doc) :=
  if c.onExpression then c.skipForward 2 <|> c.skipForward 1 else c.skipForward 1

/-- To the start of the next sibling: over it and back, if that leads to the right at all. -/
def next? (c : Cursor doc) : Option (Cursor doc) :=
  (c.pastNext?.map backUp).filter fun d => decide (c.pos < d.pos)

/-- To the start of the previous sibling, or of the expression that the cursor is in. -/
def previous? (c : Cursor doc) : Option (Cursor doc) := c.skipBackward 1

/-- Into a list, to its first child. From a comment at the start of a line, to the next opening
delimiter of the text. -/
def enter? (c : Cursor doc) : Option (Cursor doc) :=
  if c.onCommentLine then c.flow?
  else if !c.onOpening || c.onEmptyList then none
  else
    let inside := doc.cursorAt (c.pos + 1)
    some (if inside.onExpression then inside else ((inside.skipForward 1).getD inside).backUp)

/-- Out of the enclosing list, to its opening delimiter. -/
def leave? (c : Cursor doc) : Option (Cursor doc) := c.ascend?

/-- A single step. -/
def step? : Direction → Cursor doc → Option (Cursor doc)
  | .forward => next?
  | .backward => previous?
  | .inward => enter?
  | .outward => leave?

/-- Repeats a movement up to `n` times and stops when it is not possible: how often it was made, and
where it led. -/
def repeated (movement : Cursor doc → Option (Cursor doc)) : Nat → Cursor doc → Nat × Cursor doc
  | 0, c => (0, c)
  | n + 1, c =>
    match movement c with
    | none => (0, c)
    | some c' =>
      let (k, d) := repeated movement n c'
      (k + 1, d)

/-- Takes up to `n` steps: the move that was achieved and where it led, if there was a step at all. -/
def go (d : Direction) (n : Nat) (c : Cursor doc) : Option (Move × Cursor doc) :=
  match repeated (step? d) n c with
  | (0, _) => none
  | (k + 1, c') => some (d.move (k + 1), c')

theorem pos_next?_lt {c d : Cursor doc} (h : c.next? = some d) : c.pos < d.pos := by
  simpa using (Option.filter_eq_some_iff.mp h).2

theorem pos_previous?_lt {c d : Cursor doc} (h : c.previous? = some d) : d.pos < c.pos := by
  simp only [previous?, skipBackward, times?] at h
  split at h
  · simp at h
  · rename_i hb
    cases h
    exact pos_back?_lt hb

theorem pos_leave?_lt {c d : Cursor doc} (h : c.leave? = some d) : d.pos < c.pos :=
  pos_ascend?_lt h

end SExprNav.Cursor
