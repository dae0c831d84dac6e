import SExprNav.Action.Trail

/-!
# Executing traversals

The result of a traversal is the list of moves that it made, or none if it failed. A traversal that
fails leaves the cursor where it was, and so does one that ends in a fault (`Action.rollback`). A
traversal may succeed without a move; that is not a failure.

The kinds of traversals are combinators. Those of `Executed` are the same in any monad: `inSequence`,
`repeated`, `guarded`, `firstOf`, and the rounds `again` and `reorient` of loops. The loops `untilStuck`
and `detour` are those of actions. `Traversal.execute` puts them together; what the conditions of
precautions mean is a parameter of it.
-/

namespace SExprNav

/-- The moves that a traversal made, or none if it failed. -/
abbrev Executed := Option (List Move)

/-! ## Combinators

What they say is the same in any monad in which traversals are executed. -/

namespace Executed

variable {m : Type → Type} [Monad m]

/-- One execution and then another, both or none. -/
def andThen (x y : m Executed) : m Executed := do
  match ← x with
  | none => pure none
  | some ms =>
    let rest ← y
    pure (rest.map (ms ++ ·))

/-- Some executions in order, all or none. -/
def inSequence : List (m Executed) → m Executed
  | [] => pure (some [])
  | x :: xs => andThen x (inSequence xs)

/-- An execution `n` times, all or none. -/
def repeated (n : Nat) (x : m Executed) : m Executed :=
  match n with
  | 0 => pure (some [])
  | n + 1 => andThen x (repeated n x)

/-- The first execution to succeed. -/
def firstOf : List (m Executed) → m Executed
  | [] => pure none
  | x :: xs => do
    match ← x with
    | some ms => pure (some ms)
    | none => firstOf xs

/-- An execution between two conditions. -/
def guarded (before : m Bool) (x : m Executed) (after : m Bool) : m Executed := do
  if ← before then
    match ← x with
    | none => pure none
    | some ms => if ← after then pure (some ms) else pure none
  else pure none

/-- One round of repeating an execution until it fails. -/
def again (x : m Executed) : m (Verdict (List Move) Unit) := do
  match ← x with
  | none => pure (.done ())
  | some ms => pure (.again ms)

/-- One round of a detour: the reorientation, then the execution. -/
def reorient (reorientation x : m Executed) : m (Verdict (List Move) Executed) := do
  match ← reorientation with
  | none => pure (.done none)
  | some ms =>
    match ← x with
    | none => pure (.again ms)
    | some ns => pure (.done (some (ms ++ ns)))

end Executed

namespace Action

open Executed (again reorient)

variable {κ : Type} {doc : Document}

/-- Takes steps as a move says. The zero move fails. -/
def travel (m : Move) : Action κ doc Executed :=
  match m.heading with
  | none => pure none
  | some (d, n) => do
    let achieved ← go d n
    pure (achieved.map fun m => [m])

/-- An action repeated until it fails or comes back to a position; the repetition that does is not
kept. -/
def untilStuck (x : Action κ doc Executed) : Action κ doc Executed := fun c =>
  let t := trail (again x) [c] c
  match t.last.answer with
  | .error e => ⟨.error e, t.last.cursor, t.log⟩
  | .ok _ => ⟨.ok (some (t.kept.flatMap (·.1))), t.lastStart c, t.log⟩

/-- A reorientation repeated until an action succeeds after it. Fails when the reorientation fails, or
comes back to a position without that. -/
def detour (reorientation x : Action κ doc Executed) : Action κ doc Executed := fun c =>
  let t := trail (reorient reorientation x) [c] c
  match t.last.answer with
  | .error e => ⟨.error e, t.last.cursor, t.log⟩
  | .ok (.done (some ms)) => ⟨.ok (some (t.kept.flatMap (·.1) ++ ms)), t.last.cursor, t.log⟩
  | .ok _ => ⟨.ok none, t.last.cursor, t.log⟩

/-- Runs an action for a traversal, all or none, and records what came of it. A fault is not
recorded. -/
def attempt (t : Traversal κ) (x : Action κ doc Executed) : Action κ doc Executed := fun c =>
  let r := x.rollback c
  match r.answer with
  | .error _ => r
  | .ok none => { r with log := r.log ++ [.failed t c.pos] }
  | .ok (some _) => { r with log := r.log ++ [.executed t c.pos r.cursor.pos] }

end Action

/-- Asks a condition, given what the conditions from outside the library mean. -/
def Condition.test {κ : Type} {doc : Document} (meaning : κ → Action κ doc Bool) :
    Condition κ → Action κ doc Bool
  | .always => pure true
  | .holds b => Action.ask b.holds
  | .fails b => Action.ask fun c => !b.holds c
  | .custom k => meaning k

namespace Traversal

variable {κ : Type} {doc : Document}

mutual

/-- Executes a traversal, given what the conditions from outside the library mean. -/
def execute (meaning : κ → Action κ doc Bool) : Traversal κ → Action κ doc Executed
  | .move m => Action.attempt (.move m) (Action.travel m)
  | .maneuver phases =>
    Action.attempt (.maneuver phases) (Executed.inSequence (executeAll meaning phases))
  | .circuit body none => Action.attempt (.circuit body none) (execute meaning body).untilStuck
  | .circuit body (some n) =>
    Action.attempt (.circuit body (some n)) (Executed.repeated n (execute meaning body))
  | .detour reorientation body =>
    Action.attempt (.detour reorientation body)
      ((execute meaning reorientation).detour (execute meaning body))
  | .precaution body before after =>
    Action.attempt (.precaution body before after)
      (Executed.guarded (before.test meaning) (execute meaning body) (after.test meaning))
  | .protocol options =>
    Action.attempt (.protocol options) (Executed.firstOf (executeAll meaning options))

/-- The executions of some traversals. -/
def executeAll (meaning : κ → Action κ doc Bool) : List (Traversal κ) → List (Action κ doc Executed)
  | [] => []
  | t :: ts => execute meaning t :: executeAll meaning ts

end

theorem executeAll_eq_map (meaning : κ → Action κ doc Bool) (ts : List (Traversal κ)) :
    executeAll meaning ts = ts.map (execute meaning) := by
  induction ts with
  | nil => rfl
  | cons t ts ih => simp [executeAll, ih]

end Traversal

/-- The net displacement of an execution, if it succeeded. -/
def Executed.displacement (e : Executed) : Option Move := e.map Move.sum

/-- Repeats an action until it fails, but not more than `limit` times: the positions where it started
and where each success led, and whether it failed in the end. -/
def Action.walk {κ : Type} {doc : Document} (x : Action κ doc Executed) (limit : Nat) :
    Action κ doc (List Nat × Bool) := do
  let start ← ask Cursor.pos
  match limit with
  | 0 => pure ([start], false)
  | limit + 1 =>
    match ← x with
    | none => pure ([start], true)
    | some _ => (fun (positions, ended) => (start :: positions, ended)) <$> x.walk limit

end SExprNav
