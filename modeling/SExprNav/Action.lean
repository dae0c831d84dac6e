import SExprNav.Event

/-!
# Actions on a cursor

An action starts at a cursor and runs to an answer or a fault, to a cursor and to the events on the
way, in order. An action depends on nothing but the cursor where it starts. A fault ends the actions
after it and keeps the cursor and the events that there were.

* `excursion` puts the cursor back in any case, `rollback` if there is a fault or no answer
* `ifStuck` runs a second action if the first one ends where it started
* `Action.instLawfulMonad`   actions in sequence obey the monad laws
-/

namespace SExprNav

/-- What came of an action. -/
structure Run (κ : Type) (doc : Document) (α : Type) where
  answer : Except Fault α
  cursor : Cursor doc
  log : List (Event κ) := []

/-- What may be done at a cursor. -/
def Action (κ : Type) (doc : Document) (α : Type) : Type := Cursor doc → Run κ doc α

namespace Action

variable {κ : Type} {doc : Document} {α β : Type}

/-- Answers without doing anything. -/
protected def pure (a : α) : Action κ doc α := fun c => ⟨.ok a, c, []⟩

/-- An action with its answer changed. -/
protected def map (f : α → β) (x : Action κ doc α) : Action κ doc β := fun c =>
  let r := x c
  ⟨r.answer.map f, r.cursor, r.log⟩

/-- An action and another one that depends on its answer. -/
protected def bind (x : Action κ doc α) (f : α → Action κ doc β) : Action κ doc β := fun c =>
  match x c with
  | ⟨.error e, c', log⟩ => ⟨.error e, c', log⟩
  | ⟨.ok a, c', log⟩ =>
    let r := f a c'
    { r with log := log ++ r.log }

instance : Monad (Action κ doc) where
  map := Action.map
  pure := Action.pure
  bind := Action.bind

theorem pure_apply (a : α) (c : Cursor doc) : (pure a : Action κ doc α) c = ⟨.ok a, c, []⟩ := rfl

theorem bind_of_error {x : Action κ doc α} {f : α → Action κ doc β} {c c' : Cursor doc} {e : Fault}
    {log : List (Event κ)} (h : x c = ⟨.error e, c', log⟩) : (x >>= f) c = ⟨.error e, c', log⟩ := by
  show Action.bind x f c = _
  rw [Action.bind, h]

theorem bind_of_ok {x : Action κ doc α} {f : α → Action κ doc β} {c c' : Cursor doc} {a : α}
    {log : List (Event κ)} (h : x c = ⟨.ok a, c', log⟩) :
    (x >>= f) c = { f a c' with log := log ++ (f a c').log } := by
  show Action.bind x f c = _
  rw [Action.bind, h]

instance instLawfulMonad : LawfulMonad (Action κ doc) := LawfulMonad.mk' _
  (fun x => funext fun c => by
    show Action.map id x c = x c
    simp only [Action.map]
    rcases x c with ⟨_ | _, _, _⟩ <;> rfl)
  (fun _ _ => rfl)
  (fun x f g => funext fun c => by
    show Action.bind (Action.bind x f) g c = Action.bind x (fun a => Action.bind (f a) g) c
    simp only [Action.bind]
    rcases x c with ⟨_ | a, c', log⟩
    · rfl
    · dsimp only
      rcases f a c' with ⟨_ | b, c'', log'⟩
      · rfl
      · simp)
  (fun _ _ => rfl) (fun _ _ => rfl) (fun _ _ => rfl)
  (fun f x => funext fun c => by
    show Action.bind x (fun a => Action.pure (f a)) c = Action.map f x c
    simp only [Action.bind, Action.map]
    rcases x c with ⟨_ | a, c', log⟩ <;> simp [Action.pure, Except.map])

/-! ## Single actions -/

/-- Answers a question about the cursor. -/
def ask (question : Cursor doc → α) : Action κ doc α := fun c => ⟨.ok (question c), c, []⟩

/-- Ends with a fault. -/
def fault (e : Fault) : Action κ doc α := fun c => ⟨.error e, c, []⟩

/-- Gives the answer or ends with the fault that is given. -/
def ofExcept : Except Fault α → Action κ doc α
  | .ok a => Action.pure a
  | .error e => fault e

/-- Records an event. -/
def record (e : Event κ) : Action κ doc Unit := fun c => ⟨.ok (), c, [e]⟩

/-- Makes a movement and answers whether it was possible. -/
def tryMove (movement : Cursor doc → Option (Cursor doc)) : Action κ doc Bool := fun c =>
  match movement c with
  | none => ⟨.ok false, c, []⟩
  | some c' => ⟨.ok true, c', []⟩

/-- Puts the cursor at position `p`, which has to be one of the text. -/
def place (limit : Option Nat) (p : Int) : Action κ doc Unit := fun c =>
  match doc.place limit p with
  | .error e => ⟨.error e, c, []⟩
  | .ok c' => ⟨.ok (), c', []⟩

/-- Takes up to `n` steps in a direction and answers the move that was achieved, if any. -/
def go (d : Direction) (n : Nat) : Action κ doc (Option Move) := fun c =>
  match c.go d n with
  | none => ⟨.ok none, c, []⟩
  | some (m, c') => ⟨.ok (some m), c', []⟩

/-! ## Putting the cursor back -/

/-- Runs an action and puts the cursor back, whatever happened. -/
def excursion (x : Action κ doc α) : Action κ doc α := fun c => { x c with cursor := c }

/-- Runs an action and puts the cursor back if there is a fault or no answer. -/
def rollback (x : Action κ doc (Option α)) : Action κ doc (Option α) := fun c =>
  match x c with
  | ⟨.ok (some a), c', log⟩ => ⟨.ok (some a), c', log⟩
  | ⟨answer, _, log⟩ => ⟨answer, c, log⟩

/-- Runs `operation` and, if that ends where it started, `fallback` instead. The answer is that of
the one that ran last. -/
def ifStuck (fallback operation : Action κ doc α) : Action κ doc α := fun c =>
  (do
    let a ← operation
    if (← ask Cursor.pos) = c.pos then fallback else pure a : Action κ doc α) c

end Action

end SExprNav
