import SExprNav.Cursor.Boundary

/-!
# Traversals

A traversal is a value that says how a cursor is to move; it holds no cursor and can be executed any
number of times. There are six kinds:

* a *move* takes steps along one axis
* a *maneuver* executes its phases in order, all or none
* a *circuit* repeats its body a number of times, all or none, or until it fails
* a *detour* repeats a reorientation until its body succeeds after it
* a *precaution* executes its body between two conditions
* a *protocol* tries its options in order until one succeeds

The conditions of precautions are of a type `κ` of the user's choice beside some conditions of the
library itself. What they mean is said when the traversal is executed. Two traversals are equal when
their structure, their numbers and their conditions are; `beq_iff` says that `==` decides this. The
written form of a traversal shows its structure and its numbers, if these can be written.
-/

namespace SExprNav

/-- A condition of a precaution. -/
inductive Condition (κ : Type) where
  /-- Holds everywhere. -/
  | always
  /-- The cursor is at a boundary. -/
  | holds (boundary : Boundary)
  /-- The cursor is not at a boundary. -/
  | fails (boundary : Boundary)
  /-- A condition from outside the library. -/
  | custom (k : κ)
deriving DecidableEq, Repr

/-- A description of movements. -/
inductive Traversal (κ : Type) where
  | move (m : Move)
  | maneuver (phases : List (Traversal κ))
  /-- Without `times` the body is repeated until it fails. -/
  | circuit (body : Traversal κ) (times : Option Nat)
  | detour (reorientation body : Traversal κ)
  | precaution (body : Traversal κ) (before after : Condition κ)
  | protocol (options : List (Traversal κ))
deriving Repr

namespace Traversal

variable {κ : Type}

/-- One step in a direction. -/
def step (d : Direction) : Traversal κ := .move d.unit

/-- The six kinds of traversals. -/
inductive Kind where
  | move | maneuver | circuit | detour | precaution | protocol
deriving DecidableEq, Repr

/-- The kinds in the order in which they are reported. -/
def Kind.all : List Kind := [.move, .maneuver, .circuit, .detour, .precaution, .protocol]

/-- The kind of a traversal. -/
def kind : Traversal κ → Kind
  | .move _ => .move
  | .maneuver _ => .maneuver
  | .circuit _ _ => .circuit
  | .detour _ _ => .detour
  | .precaution _ _ _ => .precaution
  | .protocol _ => .protocol

/-! ## Written form -/

/-- How often a circuit is repeated, as it is written. -/
def renderTimes (limit : Option Nat) : Option Nat → Except Fault String
  | none => .ok "None"
  | some n => Numeral.write limit n

mutual

/-- The written form of a traversal. Conditions are not shown. -/
def render (limit : Option Nat) : Traversal κ → Except Fault String
  | .move m => m.render limit
  | .maneuver phases => do
    let written ← renderAll limit phases
    pure ("Maneuver(" ++ ", ".intercalate written ++ ")")
  | .circuit body times => do
    let written ← render limit body
    let number ← renderTimes limit times
    pure ("Circuit(" ++ written ++ ", times=" ++ number ++ ")")
  | .detour reorientation body => do
    let first ← render limit reorientation
    let second ← render limit body
    pure ("Detour(" ++ first ++ ", " ++ second ++ ")")
  | .precaution body _ _ => do
    let written ← render limit body
    pure ("Precaution(" ++ written ++ ")")
  | .protocol options => do
    let written ← renderAll limit options
    pure ("Protocol(" ++ ", ".intercalate written ++ ")")

/-- The written forms of some traversals. -/
def renderAll (limit : Option Nat) : List (Traversal κ) → Except Fault (List String)
  | [] => pure []
  | t :: ts => do
    let written ← render limit t
    let others ← renderAll limit ts
    pure (written :: others)

end

/-! ## Equality -/

section Equality

variable [DecidableEq κ]

mutual

/-- Whether two traversals are the same. -/
def beq : Traversal κ → Traversal κ → Bool
  | .move m, .move n => decide (m = n)
  | .maneuver ts, .maneuver us => beqAll ts us
  | .circuit t m, .circuit u n => beq t u && decide (m = n)
  | .detour r t, .detour s u => beq r s && beq t u
  | .precaution t b a, .precaution u c d => beq t u && decide (b = c) && decide (a = d)
  | .protocol ts, .protocol us => beqAll ts us
  | _, _ => false

/-- Whether two rows of traversals are the same. -/
def beqAll : List (Traversal κ) → List (Traversal κ) → Bool
  | [], [] => true
  | t :: ts, u :: us => beq t u && beqAll ts us
  | _, _ => false

end

mutual

theorem beq_iff : ∀ t u : Traversal κ, beq t u = true ↔ t = u
  | .move _, u => by cases u <;> simp [beq]
  | .maneuver ts, u => by cases u <;> simp [beq, beqAll_iff ts]
  | .circuit t _, u => by cases u <;> simp [beq, beq_iff t]
  | .detour r t, u => by cases u <;> simp [beq, beq_iff r, beq_iff t]
  | .precaution t _ _, u => by cases u <;> simp [beq, beq_iff t, and_assoc]
  | .protocol ts, u => by cases u <;> simp [beq, beqAll_iff ts]

theorem beqAll_iff : ∀ ts us : List (Traversal κ), beqAll ts us = true ↔ ts = us
  | [], us => by cases us <;> simp [beqAll]
  | t :: ts, us => by cases us <;> simp [beqAll, beq_iff t, beqAll_iff ts]

end

instance : DecidableEq (Traversal κ) := fun t u =>
  decidable_of_iff _ (beq_iff t u)

end Equality

end Traversal

end SExprNav
