import SExprNav.Traversal.Execute
import SExprNav.Traversal.Standard
import SExprNav.Value.Render

/-!
# Descriptions of traversals

A description is a traversal written as data, in which any value may stand where a traversal, a number
or a condition is expected. `Description.build` checks it and makes the traversal, or gives the first
fault. The parts of a description are built before it is checked itself, from left to right. What is
described can be executed: a plain value is then a fault.
-/

namespace SExprNav

/-- What stands where a condition is expected. -/
inductive Guard (κ : Type) where
  | condition (c : Condition κ)
  /-- A plain value; null stands for no condition. -/
  | value (v : Value)
deriving Inhabited

/-- A traversal written as data. -/
inductive Description (κ : Type) where
  /-- A plain value, which is no traversal. -/
  | value (v : Value)
  | standard (s : Standard)
  | move (x y : Value)
  | maneuver (phases : List (Description κ))
  /-- Null for `times` stands for repetition until the body fails. -/
  | circuit (body : Description κ) (times : Value)
  | detour (reorientation body : Description κ)
  | precaution (body : Description κ) (before after : Guard κ)
  | protocol (options : List (Description κ))
deriving Inhabited

/-- What a description describes: a traversal, or a plain value. -/
inductive Described (κ : Type) where
  | value (v : Value)
  | traversal (t : Traversal κ)
deriving Inhabited

namespace Described

variable {κ : Type}

/-- What is described, if it is a traversal. -/
def asTraversal : Described κ → Except Fault (Traversal κ)
  | .value v => .error (.notTraversal v.kind)
  | .traversal t => .ok t

/-- The written form of what is described. -/
def render (limit : Option Nat) : Described κ → Except Fault String
  | .value v => v.render limit
  | .traversal t => t.render limit

/-- The kind of the traversal that is described, if it is one. -/
def kind? : Described κ → Option Traversal.Kind
  | .value _ => none
  | .traversal t => some t.kind

/-- Executes what is described. -/
def execute {doc : Document} (meaning : κ → Action κ doc Bool) : Described κ → Action κ doc Executed
  | .value v => Action.fault (.unknownTraversal v.kind)
  | .traversal t => t.execute meaning

end Described

/-- The number that a value is. -/
def Value.asInteger : Value → Except Fault Int
  | .integer n => .ok n
  | v => .error (.notInteger v.kind)

/-- How often a circuit is to be repeated. -/
def Value.asTimes (limit : Option Nat) : Value → Except Fault (Option Nat)
  | .null => .ok none
  | v => do
    let n ← v.asInteger
    if n < 0 then .error (.naming limit n (.negativeTimes n)) else .ok (some n.toNat)

/-- The condition of a precaution. -/
def Guard.asCondition {κ : Type} : Guard κ → Except Fault (Condition κ)
  | .condition c => .ok c
  | .value .null => .ok .always
  | .value v => .error (.notCondition v.kind)

namespace Description

variable {κ : Type}

mutual

/-- What a description describes. -/
def build (limit : Option Nat) : Description κ → Except Fault (Described κ)
  | .value v => .ok (.value v)
  | .standard s => .ok (.traversal s.traversal)
  | .move x y => do
    let x ← x.asInteger
    let y ← y.asInteger
    .ok (.traversal (.move ⟨x, y⟩))
  | .maneuver phases => do
    let built ← buildAll limit phases
    let ts ← built.mapM Described.asTraversal
    .ok (.traversal (.maneuver ts))
  | .circuit body times => do
    let built ← build limit body
    let t ← built.asTraversal
    let n ← times.asTimes limit
    .ok (.traversal (.circuit t n))
  | .detour reorientation body => do
    let first ← build limit reorientation
    let second ← build limit body
    let r ← first.asTraversal
    let t ← second.asTraversal
    .ok (.traversal (.detour r t))
  | .precaution body before after => do
    let built ← build limit body
    let t ← built.asTraversal
    let b ← before.asCondition
    let a ← after.asCondition
    .ok (.traversal (.precaution t b a))
  | .protocol options => do
    let built ← buildAll limit options
    let ts ← built.mapM Described.asTraversal
    .ok (.traversal (.protocol ts))

/-- What some descriptions describe. -/
def buildAll (limit : Option Nat) : List (Description κ) → Except Fault (List (Described κ))
  | [] => .ok []
  | d :: ds => do
    let x ← build limit d
    let xs ← buildAll limit ds
    .ok (x :: xs)

end

end Description

end SExprNav
