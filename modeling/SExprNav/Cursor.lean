import SExprNav.Document

/-!
# Cursors

A cursor stands between two characters of a document: position `p` is right before the character with
index `p`, and the last position is the end of the text. An expression starts with its first
character, quote marks included, and ends after its last one.

The questions that a cursor answers (`onOpening`, `onExpression`, `atLineStart` …) never move it. The
movements are all-or-nothing: a movement that is not possible has no result.

* `Cursor.pos_back?_lt`   skipping backward moves to the left
* `Cursor.pos_ascend?_lt` so does ascending
-/

namespace SExprNav

/-- A position in a document. -/
structure Cursor (doc : Document) where
  pos : Nat
  pos_le : pos ≤ doc.length
deriving DecidableEq

namespace Document

variable {doc : Document}

/-- The cursor at position `p`, or at the end of the text when `p` lies beyond it. -/
def cursorAt (doc : Document) (p : Nat) : Cursor doc :=
  ⟨min p doc.length, Nat.min_le_right _ _⟩

@[simp] theorem pos_cursorAt (p : Nat) : (doc.cursorAt p).pos = min p doc.length := rfl

@[simp] theorem cursorAt_pos (c : Cursor doc) : doc.cursorAt c.pos = c := by
  obtain ⟨p, h⟩ := c
  simp [cursorAt, Nat.min_eq_left h]

/-- The cursor at position `p`, which has to be one of the text. The fault names the position, if it
can be written. -/
def place (limit : Option Nat) (doc : Document) (p : Int) : Except Fault (Cursor doc) :=
  if h : 0 ≤ p ∧ p ≤ doc.length then .ok ⟨p.toNat, by omega⟩
  else .error (.naming limit p (.outOfBounds p))

end Document

namespace Cursor

variable {doc : Document}

@[ext] theorem ext {c d : Cursor doc} (h : c.pos = d.pos) : c = d := by
  obtain ⟨p, _⟩ := c
  obtain ⟨q, _⟩ := d
  cases h
  rfl

/-! ## What stands at the cursor -/

/-- Whether a token of some kind starts at the cursor. -/
def onToken (kind : Token.Kind) (c : Cursor doc) : Bool :=
  doc.tokens.any fun t => decide (t.kind = kind) && decide (t.start = c.pos)

/-- Whether an opening delimiter stands at the cursor. Characters inside strings, comments and atoms
are no delimiters. -/
def onOpening (c : Cursor doc) : Bool := c.onToken .opener

/-- Whether a closing delimiter stands at the cursor. -/
def onClosing (c : Cursor doc) : Bool := c.onToken .closer

/-- Whether a comment starts at the cursor. -/
def onComment (c : Cursor doc) : Bool := c.onToken .comment

/-- Whether a line starts at the cursor. -/
def atLineStart (c : Cursor doc) : Bool :=
  match c.pos with
  | 0 => true
  | p + 1 => doc.text[p]? == some '\n'

/-- The expressions at the level of the cursor. -/
def level (c : Cursor doc) : List Span := (doc.forest.level c.pos).spans

/-- Whether the cursor is at the start or in the middle of an expression of its level. -/
def onExpression (c : Cursor doc) : Bool :=
  c.level.any fun s => decide (s.start ≤ c.pos) && decide (c.pos < s.stop)

/-! ## Movements -/

/-- The end of the first expression of the level that ends after the cursor. A list that nothing
closes has no end to move to. -/
def ahead? (c : Cursor doc) : Option (Cursor doc) :=
  match c.level.find? fun s => decide (c.pos < s.stop) with
  | none => none
  | some s => if s.closed then some (doc.cursorAt s.stop) else none

/-- The start of the last expression of the level that starts before the cursor. -/
def back? (c : Cursor doc) : Option (Cursor doc) :=
  (c.level.reverse.find? fun s => decide (s.start < c.pos)).map fun s => doc.cursorAt s.start

/-- `n` applications of a movement, all or none. -/
def times? (movement : Cursor doc → Option (Cursor doc)) : Nat → Cursor doc → Option (Cursor doc)
  | 0, c => some c
  | n + 1, c =>
    match movement c with
    | none => none
    | some c' => times? movement n c'

/-- Moves after the `n`-th expression that ends after the cursor. -/
def skipForward (n : Nat) (c : Cursor doc) : Option (Cursor doc) := times? ahead? n c

/-- Moves to the start of the `n`-th expression that starts before the cursor, counted backward. -/
def skipBackward (n : Nat) (c : Cursor doc) : Option (Cursor doc) := times? back? n c

/-- Moves to the opening delimiter of the innermost list around the cursor. -/
def ascend? (c : Cursor doc) : Option (Cursor doc) :=
  (doc.forest.innermost? c.pos).map fun e => doc.cursorAt e.1.opening

/-- Moves to the next opening delimiter of the text. -/
def flow? (c : Cursor doc) : Option (Cursor doc) :=
  (doc.tokens.find? fun t => decide (t.kind = .opener) && decide (c.pos < t.start)).map fun t =>
    doc.cursorAt t.start

/-- How many lists are around the cursor. -/
def depth (c : Cursor doc) : Nat := doc.forest.depth c.pos

/-- The written form of a cursor: the text in quotes and the position. -/
def render (c : Cursor doc) : String :=
  "TextOracle(" ++ Text.quoted doc.text ++ ", " ++ toString c.pos ++ ")"

theorem pos_back?_lt {c d : Cursor doc} (h : c.back? = some d) : d.pos < c.pos := by
  obtain ⟨s, hs, rfl⟩ := Option.map_eq_some_iff.mp h
  have := List.find?_some hs
  simp only [decide_eq_true_eq] at this
  exact Nat.lt_of_le_of_lt (Nat.min_le_left _ _) this

theorem pos_ascend?_lt {c d : Cursor doc} (h : c.ascend? = some d) : d.pos < c.pos := by
  obtain ⟨e, he, rfl⟩ := Option.map_eq_some_iff.mp h
  exact Nat.lt_of_le_of_lt (Nat.min_le_left _ _) (Forest.opening_lt_of_innermost? he)

end Cursor

end SExprNav
