import SExprNav.Proofs.Process.Loop
import SExprNav.Traversal.Execute

/-!
# Traversals as processes

The loops of an execution end because of a measure that is part of their definition. Here they are
without it: a process may go on forever, and then nothing comes of it. A process also has a state of
its own, which the conditions of a traversal may read and change, so that they need not answer the
same question in the same way twice. `Traversal.evaluate` is what a traversal does as a process,
given the conditions from outside the library as processes. Whether it ends is not part of the
definitions; the loops count their rounds.
-/

namespace SExprNav

/-- What came of a process. -/
structure Outcome (doc : Document) (σ α : Type) where
  answer : Except Fault α
  cursor : Cursor doc
  state : σ

/-- What may be done at a cursor, with a state. Where there is no outcome, it goes on forever. -/
def Process (doc : Document) (σ α : Type) : Type := Cursor doc → σ → Part (Outcome doc σ α)

namespace Process

variable {doc : Document} {σ α β : Type}

/-- Answers without doing anything. -/
protected def pure (a : α) : Process doc σ α := fun c s => Part.some ⟨.ok a, c, s⟩

/-- A process and another one that depends on its answer. -/
protected def bind (x : Process doc σ α) (f : α → Process doc σ β) : Process doc σ β := fun c s =>
  (x c s).bind fun r =>
    match r.answer with
    | .error e => Part.some ⟨.error e, r.cursor, r.state⟩
    | .ok a => f a r.cursor r.state

instance : Monad (Process doc σ) where
  pure := Process.pure
  bind := Process.bind

section Bind

variable {x : Process doc σ α} {c d : Cursor doc} {s s' : σ}

/-- After a fault, nothing follows. -/
theorem bind_of_error {e : Fault} (h : x c s = Part.some ⟨.error e, d, s'⟩)
    (f : α → Process doc σ β) : (x >>= f) c s = Part.some ⟨.error e, d, s'⟩ := by
  show Process.bind x f c s = _
  rw [Process.bind, h, Part.bind_some]

/-- After an answer, what follows starts where the answer was given, in the state there. -/
theorem bind_of_ok {a : α} (h : x c s = Part.some ⟨.ok a, d, s'⟩) (f : α → Process doc σ β) :
    (x >>= f) c s = f a d s' := by
  show Process.bind x f c s = _
  rw [Process.bind, h, Part.bind_some]

end Bind

/-- Puts the cursor back if there is a fault or no success. The state is not put back. -/
def attempt (x : Process doc σ Executed) : Process doc σ Executed := fun c s =>
  (x c s).map fun r =>
    match r.answer with
    | .ok (some _) => r
    | _ => { r with cursor := c }

section Attempt

variable {x : Process doc σ Executed} {c d : Cursor doc} {s s' : σ}

/-- An attempt that succeeds is kept. -/
theorem attempt_of_some {ms : List Move} (h : x c s = Part.some ⟨.ok (some ms), d, s'⟩) :
    x.attempt c s = Part.some ⟨.ok (some ms), d, s'⟩ := by
  rw [attempt, h, Part.map_some]

/-- After an attempt that fails, the cursor is back, but not the state. -/
theorem attempt_of_none (h : x c s = Part.some ⟨.ok none, d, s'⟩) :
    x.attempt c s = Part.some ⟨.ok none, c, s'⟩ := by
  rw [attempt, h, Part.map_some]

end Attempt

/-! ## Loops -/

/-- A loop between two rounds. -/
structure Going (doc : Document) (σ : Type) where
  /-- How many rounds there were. -/
  rounds : Nat
  /-- Where rounds have started or ended. -/
  visited : List (Cursor doc)
  /-- The moves of the rounds. -/
  moves : List Move
  cursor : Cursor doc
  state : σ

section Loops

variable (round : Process doc σ (Verdict (List Move) β)) (finish : List Move → β → Executed)
  (stuck : Cursor doc → Cursor doc → List Move → Cursor doc × Executed)

/-- Goes round once more. The loop ends if the round is done or comes back to a visited position. In
the first case, `finish` says what the loop answers after the moves of the rounds before it. In the
second case, `stuck` says where the loop ends and what it answers, from where the round started, where
it ended and the moves of the rounds before it. -/
def goRound (l : Going doc σ) : Part ((Nat × Outcome doc σ Executed) ⊕ Going doc σ) :=
  (round l.cursor l.state).map fun r =>
    match r.answer with
    | .error e => .inl (l.rounds + 1, ⟨.error e, r.cursor, r.state⟩)
    | .ok (.done b) => .inl (l.rounds + 1, ⟨.ok (finish l.moves b), r.cursor, r.state⟩)
    | .ok (.again ms) =>
      if l.visited.contains r.cursor then
        .inl (l.rounds + 1, ⟨.ok (stuck l.cursor r.cursor l.moves).2,
          (stuck l.cursor r.cursor l.moves).1, r.state⟩)
      else .inr ⟨l.rounds + 1, r.cursor :: l.visited, l.moves ++ ms, r.cursor, r.state⟩

/-- Goes round until the loop ends. What comes of it, and how many rounds there were. -/
def goOn (l : Going doc σ) : Part (Nat × Outcome doc σ Executed) :=
  Loop.run (goRound round finish stuck) l

/-- A loop that starts at `c`. -/
def loop (c : Cursor doc) (s : σ) : Part (Nat × Outcome doc σ Executed) :=
  goOn round finish stuck { rounds := 0, visited := [c], moves := [], cursor := c, state := s }

end Loops

/-- Repeats a process until it fails or comes back to a position; then the cursor goes back to where
the last repetition started. Counts how often the process was executed. -/
def countedUntilStuck (x : Process doc σ Executed) (c : Cursor doc) (s : σ) :
    Part (Nat × Outcome doc σ Executed) :=
  loop (Executed.again x) (fun ms _ => some ms) (fun before _ ms => (before, some ms)) c s

/-- Repeats a reorientation until a process succeeds after it. Fails when the reorientation fails,
or comes back to a position without that. Counts how often the reorientation was executed. -/
def countedDetour (reorientation x : Process doc σ Executed) (c : Cursor doc) (s : σ) :
    Part (Nat × Outcome doc σ Executed) :=
  loop (Executed.reorient reorientation x) (fun ms result => result.map (ms ++ ·))
    (fun _ after _ => (after, none)) c s

/-- What comes of `countedUntilStuck`. -/
def untilStuck (x : Process doc σ Executed) : Process doc σ Executed := fun c s =>
  (x.countedUntilStuck c s).map (·.2)

/-- What comes of `countedDetour`. -/
def detour (reorientation x : Process doc σ Executed) : Process doc σ Executed := fun c s =>
  (reorientation.countedDetour x c s).map (·.2)

end Process

variable {κ : Type} {doc : Document} {σ : Type}

/-- An action as a process that leaves the state alone. -/
def Action.process {α : Type} (x : Action κ doc α) : Process doc σ α := fun c s =>
  Part.some ⟨(x c).answer, (x c).cursor, s⟩

/-- Asks a condition, given the conditions from outside the library. -/
def Condition.ask (custom : κ → Process doc σ Bool) : Condition κ → Process doc σ Bool
  | .always => pure true
  | .holds b => fun c s => Part.some ⟨.ok (b.holds c), c, s⟩
  | .fails b => fun c s => Part.some ⟨.ok (!b.holds c), c, s⟩
  | .custom k => custom k

namespace Traversal

mutual

/-- Executes a traversal, given the conditions from outside the library. -/
def evaluate (custom : κ → Process doc σ Bool) : Traversal κ → Process doc σ Executed
  | .move m => Process.attempt (Action.travel m : Action κ doc Executed).process
  | .maneuver phases => Process.attempt (Executed.inSequence (evaluateAll custom phases))
  | .circuit body none => Process.attempt (evaluate custom body).untilStuck
  | .circuit body (some n) => Process.attempt (Executed.repeated n (evaluate custom body))
  | .detour reorientation body =>
    Process.attempt ((evaluate custom reorientation).detour (evaluate custom body))
  | .precaution body before after =>
    Process.attempt
      (Executed.guarded (before.ask custom) (evaluate custom body) (after.ask custom))
  | .protocol options => Process.attempt (Executed.firstOf (evaluateAll custom options))

/-- The executions of some traversals. -/
def evaluateAll (custom : κ → Process doc σ Bool) :
    List (Traversal κ) → List (Process doc σ Executed)
  | [] => []
  | t :: ts => evaluate custom t :: evaluateAll custom ts

end

/-- Traversals in a row are evaluated one by one. -/
theorem evaluateAll_eq_map (custom : κ → Process doc σ Bool) (ts : List (Traversal κ)) :
    evaluateAll custom ts = ts.map (evaluate custom) := by
  induction ts with
  | nil => rfl
  | cons t ts ih => rw [evaluateAll, ih, List.map_cons]

end Traversal

end SExprNav
