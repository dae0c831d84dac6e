import SExprNav.Fault

/-!
# Moves

A move counts steps: `x` to the side, forward being positive, and `y` in depth, inward being positive.
A `Direction` is one of the four unit moves. Only moves along one axis can be executed; `Move.heading`
gives the direction and the number of steps of a move, the sideways axis coming first. A move is
written with both of its numbers, if these can be written.

* `Move.sum_append`   the sum of moves made one after another
* `Move.heading_scale`   a scaled unit move heads where the unit does
-/

namespace SExprNav

/-- A displacement, counted in steps. -/
structure Move where
  /-- Steps among siblings, forward being positive. -/
  x : Int
  /-- Steps in depth, inward being positive. -/
  y : Int
deriving DecidableEq, Repr

namespace Move

/-- No displacement. -/
def zero : Move := ⟨0, 0⟩

instance : Add Move := ⟨fun m n => ⟨m.x + n.x, m.y + n.y⟩⟩

@[simp] theorem add_x (m n : Move) : (m + n).x = m.x + n.x := rfl

@[simp] theorem add_y (m n : Move) : (m + n).y = m.y + n.y := rfl

@[ext] theorem ext {m n : Move} (hx : m.x = n.x) (hy : m.y = n.y) : m = n := by
  cases m; cases n; cases hx; cases hy; rfl

theorem add_assoc (l m n : Move) : l + m + n = l + (m + n) := by
  ext <;> simp [Int.add_assoc]

@[simp] theorem zero_add (m : Move) : zero + m = m := by
  ext <;> simp [zero]

@[simp] theorem add_zero (m : Move) : m + zero = m := by
  ext <;> simp [zero]

/-- The net displacement of some moves. -/
def sum (ms : List Move) : Move := ms.foldr (· + ·) zero

@[simp] theorem sum_nil : sum [] = zero := rfl

@[simp] theorem sum_cons (m : Move) (ms : List Move) : sum (m :: ms) = m + sum ms := rfl

theorem sum_append (ms ns : List Move) : sum (ms ++ ns) = sum ms + sum ns := by
  induction ms with
  | nil => simp
  | cons m ms ih => simp [ih, add_assoc]

/-- The signed length of a move along its axis; a move to the side counts by `x` alone. -/
def length (m : Move) : Int := if m.x ≠ 0 then m.x else m.y

/-- The written form of a move. -/
def render (limit : Option Nat) (m : Move) : Except Fault String := do
  let x ← Numeral.write limit m.x
  let y ← Numeral.write limit m.y
  pure ("Move(x=" ++ x ++ ", y=" ++ y ++ ")")

/-- The written form of some moves. -/
def renderAll (limit : Option Nat) (ms : List Move) : Except Fault String := do
  let written ← ms.mapM (render limit)
  pure ("[" ++ ", ".intercalate written ++ "]")

/-- The move made `n` times. -/
def scale (n : Int) (m : Move) : Move := ⟨m.x * n, m.y * n⟩

end Move

/-- The four elementary directions. -/
inductive Direction where
  /-- To the next sibling. -/
  | forward
  /-- To the previous sibling. -/
  | backward
  /-- To the first child. -/
  | inward
  /-- To the enclosing list. -/
  | outward
deriving DecidableEq, Repr

namespace Direction

/-- The move of one step. -/
def unit : Direction → Move
  | .forward => ⟨1, 0⟩
  | .backward => ⟨-1, 0⟩
  | .inward => ⟨0, 1⟩
  | .outward => ⟨0, -1⟩

/-- The move of `n` steps. -/
def move (d : Direction) (n : Nat) : Move := d.unit.scale n

end Direction

namespace Move

/-- The direction of a move and its number of steps. The zero move heads nowhere. -/
def heading (m : Move) : Option (Direction × Nat) :=
  if 0 < m.x then some (.forward, m.x.natAbs)
  else if m.x < 0 then some (.backward, m.x.natAbs)
  else if 0 < m.y then some (.inward, m.y.natAbs)
  else if m.y < 0 then some (.outward, m.y.natAbs)
  else none

theorem heading_scale (d : Direction) {n : Nat} (h : 0 < n) : (d.move n).heading = some (d, n) := by
  have hn : n ≠ 0 := Nat.ne_of_gt h
  cases d <;> simp [heading, Direction.move, Direction.unit, scale, Int.not_lt.mpr, hn]

end Move

end SExprNav
