import SExprNav.Cursor.Step

/-!
# Boundaries

Where in the forest a cursor is: at the top level, first or last in its level, at the very first or
last expression, on an empty list, on a comment line. `Boundary.holds` decides each of them by asking
which steps are possible.
-/

namespace SExprNav

namespace Cursor

variable {doc : Document}

/-- The opening delimiters that the cursor reaches by stepping outward, from the inside out. -/
def ancestors (c : Cursor doc) : List (Cursor doc) :=
  match _h : c.leave? with
  | none => []
  | some d => d :: d.ancestors
termination_by c.pos
decreasing_by exact pos_leave?_lt _h

end Cursor

/-- The boundaries of a document. -/
inductive Boundary where
  /-- Not inside any list. -/
  | top
  /-- No step backward is possible. -/
  | first
  /-- No step forward is possible. -/
  | last
  /-- No step forward is possible, nor from any enclosing list. -/
  | final
  /-- No step backward is possible, nor from any enclosing list. -/
  | initial
  /-- On a list without expressions. -/
  | emptyList
  /-- On a comment that starts its line. -/
  | commentLine
deriving DecidableEq, Repr

namespace Boundary

variable {doc : Document}

/-- All boundaries, in the order in which they are reported. -/
def all : List Boundary := [.top, .first, .last, .final, .initial, .emptyList, .commentLine]

/-- Whether a cursor is at a boundary. -/
def holds : Boundary → Cursor doc → Bool
  | .top, c => c.leave?.isNone
  | .first, c => c.previous?.isNone
  | .last, c => c.next?.isNone
  | .final, c => (c :: c.ancestors).all (·.next?.isNone)
  | .initial, c => (c :: c.ancestors).all (·.previous?.isNone)
  | .emptyList, c => c.onEmptyList
  | .commentLine, c => c.onCommentLine

end Boundary

end SExprNav
