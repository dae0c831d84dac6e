/-!
# Lines

Line ends come in three forms; `Line.normalize` makes them one. `Line.around` is the line that a
position is on, and `Line.withCaret` shows it with a caret below the position.

* `not_mem_before`, `not_mem_after`   no newline stands on the line
-/

namespace SExprNav.Line

/-- Makes a newline of each line end: of a carriage return with or without a newline after it. -/
def normalize : List Char → List Char
  | [] => []
  | '\r' :: '\n' :: cs => '\n' :: normalize cs
  | '\r' :: cs => '\n' :: normalize cs
  | c :: cs => c :: normalize cs

/-- What stands before position `p` on its line. -/
def before (text : List Char) (p : Nat) : List Char :=
  ((text.take p).reverse.takeWhile (· != '\n')).reverse

/-- What stands from position `p` on to the end of its line. -/
def after (text : List Char) (p : Nat) : List Char :=
  (text.drop p).takeWhile (· != '\n')

/-- The line that position `p` is on. -/
def around (text : List Char) (p : Nat) : List Char :=
  before text p ++ after text p

/-- Where the line starts that position `p` is on. -/
def start (text : List Char) (p : Nat) : Nat :=
  (text.take p).length - (before text p).length

/-- A position that may be counted from the end of the text by a negative number; one that lies
before the start is the start. -/
def resolve (length : Nat) (p : Int) : Nat :=
  if p < 0 then (length + p).toNat else p.toNat

/-- The line that a position is on and, below it, a caret under the position. The caret keeps to the
left edge when the position is negative. -/
def withCaret (text : List Char) (p : Int) : String :=
  let q := resolve text.length p
  String.ofList (around text q ++ '\n' :: List.replicate (p - start text q).toNat ' ' ++ ['^'])

theorem not_mem_after (text : List Char) (p : Nat) : '\n' ∉ after text p := by
  intro h
  have := List.all_eq_true.mp List.all_takeWhile _ h
  simp at this

theorem not_mem_before (text : List Char) (p : Nat) : '\n' ∉ before text p := by
  intro h
  have := List.all_eq_true.mp List.all_takeWhile _ (List.mem_reverse.mp h)
  simp at this

end SExprNav.Line
