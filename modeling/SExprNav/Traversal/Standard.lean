import SExprNav.Traversal

/-!
# Standard traversals

For the forest of `(a (b c) d)`, walking in preorder visits `(a (b c) d)`, `a`, `(b c)`, `b`, `c` and
`d`; walking in postorder visits `a`, `b`, `c`, `(b c)`, `d` and `(a (b c) d)`.
-/

namespace SExprNav

/-- The traversals that have a name. -/
inductive Standard where
  | first | last | lowest | highest
  | preorder | preorderBackward
  | postorder | postorderBackward
  | climb
deriving DecidableEq, Repr

namespace Standard

variable {κ : Type}

/-- All standard traversals. -/
def all : List Standard :=
  [.first, .last, .lowest, .highest, .preorder, .preorderBackward, .postorder, .postorderBackward,
   .climb]

/-- The name of a standard traversal. -/
def name : Standard → String
  | .first => "first"
  | .last => "last"
  | .lowest => "lowest"
  | .highest => "highest"
  | .preorder => "preorder"
  | .preorderBackward => "preorder-backward"
  | .postorder => "postorder"
  | .postorderBackward => "postorder-backward"
  | .climb => "climb"

/-- The standard traversal with a name. -/
def ofName? (name : String) : Option Standard := all.find? fun s => s.name == name

theorem ofName?_name (s : Standard) : ofName? s.name = some s := by
  cases s <;> decide

/-- A step in a direction until there is none. -/
def farthest (d : Direction) : Traversal κ := .circuit (.step d) none

/-- What a standard traversal does. -/
def traversal : Standard → Traversal κ
  | .first => farthest .backward
  | .last => farthest .forward
  | .lowest => farthest .inward
  | .highest => farthest .outward
  -- The first child; else the next sibling; else the next sibling of the closest ancestor with one.
  | .preorder =>
    .protocol [.step .inward, .step .forward, .detour (.step .outward) (.step .forward)]
  -- The deepest last descendant of the previous sibling, or that sibling; else the parent.
  | .preorderBackward =>
    .protocol
      [.maneuver
        [.step .backward, .circuit (.maneuver [.step .inward, farthest .forward]) none],
       .step .outward]
  -- The lowest first descendant of the next sibling, or that sibling; else the parent.
  | .postorder => .protocol [.maneuver [.step .forward, farthest .inward], .step .outward]
  -- The last child; else the previous sibling; else that of the closest ancestor with one.
  | .postorderBackward =>
    .protocol
      [.maneuver [.step .inward, farthest .forward], .step .backward,
       .detour (.step .outward) (.step .backward)]
  -- Out by one level, but not onto the top level.
  | .climb => .precaution (.step .outward) .always (.fails .top)

end Standard

end SExprNav
