import SExprNav.Proofs.Process.Loop
import SExprNav.Traversal.Execute

/-!
# Navigation on bare positions

A cursor carries the proof that it is in the text. Here is navigation without it: a position is any
number, movements assign it without a check, and there is a check where the cursor is put somewhere,
which is a fault outside the text. The fault names the position, which may have more digits than can
be written. This happens inside of navigation, too: a step inward puts the cursor after an opening
delimiter, and whatever undoes something puts it back to where it was. Loops are loops without a
bound. That there are no such faults, that the positions stay in the text and that the loops end is
not part of these definitions.

* `Bare.put`          puts the cursor somewhere in the text, or faults
* `Bare.excursion`    puts the cursor back, whatever happened
* `Bare.atBoundary`   the boundaries of a document, by trying the steps
* `Traversal.bare`    executes a traversal
-/

namespace SExprNav

/-- What may be done at a bare position in a document, where numbers up to a limit of digits can be
written. Where nothing comes of it, it goes on forever. -/
def Bare (_limit : Option Nat) (_doc : Document) (α : Type) : Type :=
  Nat → Part (Except Fault α × Nat)

namespace Bare

variable {limit : Option Nat} {doc : Document} {σ α β : Type}

/-- Answers without doing anything. -/
protected def pure (a : α) : Bare limit doc α := fun p => Part.some (.ok a, p)

/-- A program and another one that depends on its answer. -/
protected def bind (x : Bare limit doc α) (f : α → Bare limit doc β) : Bare limit doc β := fun p =>
  (x p).bind fun
    | (.error e, q) => Part.some (.error e, q)
    | (.ok a, q) => f a q

instance : Monad (Bare limit doc) where
  pure := Bare.pure
  bind := Bare.bind

/-- Ends with a fault. -/
def raise (e : Fault) : Bare limit doc α := fun p => Part.some (.error e, p)

/-- Gives the answer or ends with the fault that is given. -/
def ofExcept : Except Fault α → Bare limit doc α
  | .ok a => pure a
  | .error e => raise e

/-- Answers what came of a program, be it an answer or a fault. -/
def caught (x : Bare limit doc α) : Bare limit doc (Except Fault α) := fun p =>
  (x p).map fun (answer, q) => (.ok answer, q)

/-- Answers a question about the position. -/
def ask (question : Nat → α) : Bare limit doc α := fun p => Part.some (.ok (question p), p)

/-- Where the cursor is. -/
def position : Bare limit doc Nat := ask id

/-- Puts the cursor at a position, which has to be one of the text. The fault names the position, if it
can be written. -/
def put (target : Int) : Bare limit doc Unit := fun p =>
  if 0 ≤ target ∧ target ≤ doc.length then Part.some (.ok (), target.toNat)
  else Part.some (.error (.naming limit target (.outOfBounds target)), p)

/-- Goes where a movement leads, if anywhere, without a check, and answers whether it does. -/
def jump (movement : Nat → Option Nat) : Bare limit doc Bool := fun p =>
  match movement p with
  | none => Part.some (.ok false, p)
  | some q => Part.some (.ok true, q)

/-- Goes round until a round is done with a result or faults. -/
def loop (round : σ → Bare limit doc (β ⊕ σ)) (s : σ) : Bare limit doc β := fun p =>
  Loop.run (fun (s, p) => (round s p).map fun
    | (.error e, q) => .inl (.error e, q)
    | (.ok (.inl b), q) => .inl (.ok b, q)
    | (.ok (.inr s), q) => .inr (s, q)) (s, p)

/-- Runs a program and puts the cursor back, whatever happened. -/
def excursion (x : Bare limit doc α) : Bare limit doc α := do
  let original ← position
  let result ← x.caught
  put original
  ofExcept result

/-- Runs `operation` and, if that ends where it started, `fallback` instead. -/
def ifStuck (fallback operation : Bare limit doc α) : Bare limit doc α := do
  let original ← position
  let result ← operation
  if (← position) = original then fallback else pure result

/-! ## What stands at the cursor -/

/-- Whether a token of some kind starts at the cursor. -/
def onToken (kind : Token.Kind) : Bare limit doc Bool :=
  ask fun p => doc.tokens.any fun t => decide (t.kind = kind) && decide (t.start = p)

/-- Whether the cursor is at the start or in the middle of an expression of its level. -/
def onExpression : Bare limit doc Bool :=
  ask fun p => (doc.forest.level p).spans.any fun s => decide (s.start ≤ p) && decide (p < s.stop)

/-- Whether a line starts at the cursor. Beyond the text there is no character to look at. -/
def atLineStart : Bare limit doc Bool := do
  match ← position with
  | 0 => pure true
  | p + 1 =>
    match doc.text[p]? with
    | none => raise (.outOfBounds p)
    | some c => pure (c == '\n')

/-! ## Movements -/

/-- The end of the first expression of the level that ends after a position, if it has one. -/
def ahead? (doc : Document) (p : Nat) : Option Nat :=
  match (doc.forest.level p).spans.find? fun s => decide (p < s.stop) with
  | none => none
  | some s => if s.closed then some s.stop else none

/-- The start of the last expression of the level that starts before a position. -/
def behind? (doc : Document) (p : Nat) : Option Nat :=
  ((doc.forest.level p).spans.reverse.find? fun s => decide (s.start < p)).map (·.start)

/-- `n` applications of a movement, all or none. -/
def times? (movement : Nat → Option Nat) : Nat → Nat → Option Nat
  | 0, p => some p
  | n + 1, p => (movement p).bind (times? movement n)

/-- Moves after the `n`-th expression that ends after the cursor. -/
def skipForward (n : Int) : Bare limit doc Bool := jump (times? (ahead? doc) n.toNat)

/-- Moves to the start of the `n`-th expression that starts before the cursor. -/
def skipBackward (n : Int) : Bare limit doc Bool := jump (times? (behind? doc) n.toNat)

/-- Moves to the opening delimiter of the innermost list around the cursor. -/
def ascend : Bare limit doc Bool := jump fun p => (doc.forest.innermost? p).map (·.1.opening)

/-- Moves to the next opening delimiter of the text. -/
def flow : Bare limit doc Bool := jump fun p =>
  (doc.tokens.find? fun t => decide (t.kind = .opener) && decide (p < t.start)).map (·.start)

/-! ## Steps -/

/-- A comment at the start of a line. -/
def onCommentLine : Bare limit doc Bool := do
  if ← atLineStart then onToken .comment else pure false

/-- Puts the cursor one position to the right. -/
def putNext : Bare limit doc Unit := do put ((← position) + 1)

/-- An opening delimiter after which no expression can be skipped. -/
def onEmptyList : Bare limit doc Bool := do
  if ← onToken .opener then
    excursion do
      putNext
      return !(← skipForward 1)
  else pure false

/-- Back over an expression, if there is one. -/
def backUp : Bare limit doc Unit := do
  let _ ← skipBackward 1

/-- From an expression, over it and the next one. -/
def overTwo : Bare limit doc Bool := do
  if ← onExpression then skipForward 2 else pure false

/-- From an expression, over it and the next one and back over that, if possible; else over an
expression and back. -/
def overAndBack : Bare limit doc Unit := do
  if ← overTwo then backUp
  else if ← skipForward 1 then backUp

/-- To the start of the next sibling. Ending up where it started or before that is no step. -/
def forwardOne : Bare limit doc Bool := do
  let original ← position
  overAndBack
  if (← position) ≤ original then do put original; pure false
  else pure true

/-- To the start of the previous sibling. -/
def backwardOne : Bare limit doc Bool := ifStuck (pure false) (skipBackward 1)

/-- To the start of the first expression, over what there is before it. -/
def toExpression : Bare limit doc Unit := do
  if ← onExpression then pure ()
  else
    let _ ← skipForward 1
    backUp

/-- Into a list, to its first child. -/
def enterOne : Bare limit doc Bool := do
  if ← onCommentLine then ifStuck (pure false) flow
  else if !(← onToken .opener) then pure false
  else if ← onEmptyList then pure false
  else
    putNext
    toExpression
    pure true

/-- Out of the enclosing list. -/
def exitOne : Bare limit doc Bool := ifStuck (pure false) ascend

/-- A single step. -/
def one : Direction → Bare limit doc Bool
  | .forward => forwardOne
  | .backward => backwardOne
  | .inward => enterOne
  | .outward => exitOne

/-- Takes a step up to `n` times and stops when it is not possible. Answers how often it was. -/
def steps (x : Bare limit doc Bool) : Nat → Bare limit doc Nat
  | 0 => pure 0
  | n + 1 => do
    if ← x then
      let rest ← steps x n
      pure (rest + 1)
    else pure 0

/-- Takes up to `n` steps in a direction and answers the move that was achieved, if any. -/
def go (d : Direction) (n : Int) : Bare limit doc (Option Move) := do
  let total ← steps (one d) n.toNat
  pure (if 0 < total then some (d.move total) else none)

/-! ## Boundaries -/

/-- Goes outward once and tries a step from there. The climb ends where it does not go outward any
more, or where the step is possible. -/
def climbRound (x : Bare limit doc Bool) : Unit → Bare limit doc (Bool ⊕ Unit) := fun _ => do
  if ← exitOne then
    if ← x then pure (.inl false) else pure (.inr ())
  else pure (.inl true)

/-- Whether a step is possible neither from the cursor nor from anywhere that leads outward from
there. -/
def stuckOutward (x : Bare limit doc Bool) : Bare limit doc Bool := do
  if ← x then pure false else loop (climbRound x) ()

/-- Whether the cursor is at a boundary. -/
def atBoundary : Boundary → Bare limit doc Bool
  | .top => excursion do return !(← exitOne)
  | .first => excursion do return !(← backwardOne)
  | .last => excursion do return !(← forwardOne)
  | .final => excursion (stuckOutward forwardOne)
  | .initial => excursion (stuckOutward backwardOne)
  | .emptyList => onEmptyList
  | .commentLine => onCommentLine

/-! ## Ways to put traversals together -/

/-- Takes steps as a move says. The zero move fails. -/
def travel (m : Move) : Bare limit doc Executed :=
  match m.heading with
  | none => pure none
  | some (d, n) => do
    let achieved ← go d n
    pure (achieved.map fun m => [m])

/-- Runs a program and puts the cursor back if there is a fault or no success. -/
def attempt (x : Bare limit doc Executed) : Bare limit doc Executed := do
  let original ← position
  match ← x.caught with
  | .error e => do put original; raise e
  | .ok none => do put original; pure none
  | .ok (some ms) => pure (some ms)

/-- Goes round once more, after rounds that visited some positions and made some moves. The loop
ends when the round decides that, or comes back to a visited position. Its result is said by
`finish` in the first case; in the second it is that of `stuck`, which is told where the round
started. -/
def goRound (round : Bare limit doc (Verdict (List Move) β)) (finish : List Move → β → Executed)
    (stuck : Nat → List Move → Bare limit doc Executed) :
    List Nat × List Move → Bare limit doc (Executed ⊕ (List Nat × List Move))
  | (visited, executed) => do
    let before ← position
    match ← round with
    | .done b => pure (.inl (finish executed b))
    | .again ms =>
      let p ← position
      if p ∈ visited then
        let result ← stuck before executed
        pure (.inl result)
      else pure (.inr (p :: visited, executed ++ ms))

/-- A program repeated until it fails or comes back to a position; the repetition that does is not
kept. -/
def untilStuck (x : Bare limit doc Executed) : Bare limit doc Executed := do
  let start ← position
  loop (goRound (Executed.again x) (fun executed _ => some executed)
    fun before executed => do put before; pure (some executed)) ([start], [])

/-- A reorientation repeated until a program succeeds after it. Fails when the reorientation fails,
or comes back to a position without that. -/
def detour (reorientation x : Bare limit doc Executed) : Bare limit doc Executed := do
  let start ← position
  loop (goRound (Executed.reorient reorientation x) (fun executed result => result.map (executed ++ ·))
    fun _ _ => pure none) ([start], [])

end Bare

variable {κ : Type} {limit : Option Nat} {doc : Document}

/-- Asks a condition, given the conditions from outside the library. -/
def Condition.bare (custom : κ → Bare limit doc Bool) : Condition κ → Bare limit doc Bool
  | .always => pure true
  | .holds b => Bare.atBoundary b
  | .fails b => do return !(← Bare.atBoundary b)
  | .custom k => custom k

namespace Traversal

mutual

/-- Executes a traversal, given the conditions from outside the library. -/
def bare (custom : κ → Bare limit doc Bool) : Traversal κ → Bare limit doc Executed
  | .move m => Bare.attempt (Bare.travel m)
  | .maneuver phases => Bare.attempt (Executed.inSequence (bareAll custom phases))
  | .circuit body none => Bare.attempt (bare custom body).untilStuck
  | .circuit body (some n) => Bare.attempt (Executed.repeated n (bare custom body))
  | .detour reorientation body =>
    Bare.attempt ((bare custom reorientation).detour (bare custom body))
  | .precaution body before after =>
    Bare.attempt (Executed.guarded (before.bare custom) (bare custom body) (after.bare custom))
  | .protocol options => Bare.attempt (Executed.firstOf (bareAll custom options))

/-- The executions of some traversals. -/
def bareAll (custom : κ → Bare limit doc Bool) : List (Traversal κ) → List (Bare limit doc Executed)
  | [] => []
  | t :: ts => bare custom t :: bareAll custom ts

end

theorem bareAll_eq_map (custom : κ → Bare limit doc Bool) (ts : List (Traversal κ)) :
    bareAll custom ts = ts.map (bare custom) := by
  induction ts with
  | nil => rfl
  | cons t ts ih => rw [bareAll, ih, List.map_cons]

end Traversal

end SExprNav
