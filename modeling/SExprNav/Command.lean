import SExprNav.Traversal.Execute
import SExprNav.Traversal.Standard

/-!
# Commands

A command is a count and a name: the letter of a direction or the name of a standard traversal. A
direction is taken up to that many times; a standard traversal is repeated that many times, all or
none. Without a count it is done once.

`Action.navigate` carries out a row of commands if all of them are known, and else none.

* `Command.split_eq_self`   a text that starts with no digit has no count
* `Direction.ofLetter?_letter`   each direction is found by its letter
-/

namespace SExprNav

namespace Direction

/-- The letter of a direction. -/
def letter : Direction → String
  | .forward => "f"
  | .backward => "b"
  | .inward => "i"
  | .outward => "o"

/-- All directions. -/
def all : List Direction := [.forward, .backward, .inward, .outward]

/-- The direction with a letter. -/
def ofLetter? (letter : String) : Option Direction := all.find? fun d => d.letter == letter

theorem ofLetter?_letter (d : Direction) : ofLetter? d.letter = some d := by
  cases d <;> decide

end Direction

namespace Command

/-- The count at the start of a text, and the text after it. The count is 1 where no digit stands. -/
def split (cs : List Char) : Except Fault (Nat × List Char) :=
  match cs.takeWhile Text.isDigit with
  | [] => .ok (1, cs)
  | digits =>
    match Numeral.readNat digits with
    | .ok n => .ok (n, cs.dropWhile Text.isDigit)
    | .error problem => .error (.badCount digits problem)

theorem split_eq_self {cs : List Char} (h : ∀ c ∈ cs.head?, Text.isDigit c = false) :
    split cs = .ok (1, cs) := by
  cases cs with
  | nil => rfl
  | cons c cs => simp [split, List.takeWhile, h c (by simp)]

/-- The traversal that a command stands for, if it is known. -/
def traversal? {κ : Type} (command : String) : Except Fault (Option (Traversal κ)) := do
  let (count, rest) ← split command.toList
  let name := String.ofList rest
  match Direction.ofLetter? name, Standard.ofName? name with
  | some d, _ => .ok (some (.move (d.move count)))
  | none, some s => .ok (some (if count = 1 then s.traversal else .circuit s.traversal (some count)))
  | none, none => .ok none

/-- Some commands with the traversals that they stand for. -/
def readAll {κ : Type} : List String → Except Fault (List (String × Option (Traversal κ)))
  | [] => .ok []
  | command :: commands => do
    let t ← traversal? command
    let ts ← readAll commands
    .ok ((command, t) :: ts)

/-- The commands that stand for no traversal. -/
def unknown {κ : Type} (commands : List (String × Option (Traversal κ))) : List String :=
  (commands.filter (·.2.isNone)).map (·.1)

end Command

namespace Action

variable {κ : Type} {doc : Document}

/-- Executes a traversal for a command and records what came of it. -/
def perform (meaning : κ → Action κ doc Bool) (command : String) (t : Traversal κ) :
    Action κ doc Unit := do
  match ← t.execute meaning with
  | none => record (.noMovement command)
  | some ms => record (.movement command (Move.sum ms) (← ask Cursor.pos))

/-- Executes the traversals of some commands in order, whether or not they apply. -/
def performAll (meaning : κ → Action κ doc Bool) :
    List (String × Option (Traversal κ)) → Action κ doc Unit
  | [] => pure ()
  | (command, some t) :: rest => do
    perform meaning command t
    performAll meaning rest
  | (_, none) :: rest => performAll meaning rest

/-- Carries out some commands in order, or none if some are unknown: the unknown ones. -/
def navigate (meaning : κ → Action κ doc Bool) (commands : List String) :
    Action κ doc (List String) := do
  let read ← ofExcept (Command.readAll commands)
  match Command.unknown read with
  | [] => do
    performAll meaning read
    pure []
  | unknown => pure unknown

end Action

end SExprNav
