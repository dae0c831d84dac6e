import SExprNav.Traversal

/-!
# Events

What happens while a document is read, a traversal is executed or commands are carried out is recorded
as events. `Event.level` says how much an event matters and `Event.message` puts it into words, if
the traversals and moves in it can be written.
-/

namespace SExprNav

/-- How much an event matters, in ascending order. -/
inductive Event.Level where
  | debug | info | error
deriving DecidableEq, Repr

/-- A recorded event. -/
inductive Event (κ : Type) where
  /-- A closing delimiter that closes nothing. -/
  | strayCloser (position : Nat)
  /-- A list that nothing closes, by its opening delimiter. -/
  | unclosedList (position : Nat)
  /-- A traversal led from one position to another. -/
  | executed (t : Traversal κ) (start stop : Nat)
  /-- A traversal failed. -/
  | failed (t : Traversal κ) (position : Nat)
  /-- A command did not apply at the cursor. -/
  | noMovement (command : String)
  /-- A command made some net move to a position. -/
  | movement (command : String) (net : Move) (stop : Nat)
  | noSuchFile (name : String)
  /-- The cursor cannot start where it was asked to. -/
  | badPosition (cause : Fault)
  | unknownCommands (commands : List String)

namespace Event

variable {κ : Type}

/-- The word for a level. -/
def Level.word : Level → String
  | .debug => "DEBUG"
  | .info => "INFO"
  | .error => "ERROR"

/-- The rank of a level. -/
def Level.rank : Level → Nat
  | .debug => 0
  | .info => 1
  | .error => 2

/-- How much an event matters. -/
def level : Event κ → Level
  | .strayCloser _ | .unclosedList _ | .executed _ _ _ | .failed _ _ => .debug
  | .noMovement _ | .movement _ _ _ => .info
  | .noSuchFile _ | .badPosition _ | .unknownCommands _ => .error

/-- An event in words. -/
def message (limit : Option Nat) : Event κ → Except Fault String
  | .strayCloser position => pure ("Unmatched closing delimiter at " ++ toString position)
  | .unclosedList position => pure ("Unclosed list at " ++ toString position)
  | .executed t start stop => do
    let written ← t.render limit
    pure (written ++ ": " ++ toString start ++ " -> " ++ toString stop)
  | .failed t position => do
    let written ← t.render limit
    pure (written ++ " failed at " ++ toString position)
  | .noMovement command => pure (command ++ ": no movement")
  | .movement command net stop => do
    let written ← net.render limit
    pure (command ++ ": " ++ written ++ " to " ++ toString stop)
  | .noSuchFile name => pure ("No such file: " ++ name)
  | .badPosition cause => pure ("Invalid --position: " ++ cause.message)
  | .unknownCommands commands => pure ("Unknown command(s): " ++ ", ".intercalate commands)

/-- The events that matter at least as much as a level. -/
def atLeast (least : Level) (log : List (Event κ)) : List (Event κ) :=
  log.filter fun e => decide (least.rank ≤ e.level.rank)

end Event

/-- The events of reading a document: the closing delimiters that close nothing, then the lists that
nothing closes. -/
def Document.events {κ : Type} (doc : Document) : List (Event κ) :=
  doc.strays.map .strayCloser ++ doc.unclosed.map .unclosedList

end SExprNav
