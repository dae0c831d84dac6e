import SExprNav.Action

/-!
# Outcomes of actions

What comes of an action, apart from its events: it yields an answer and a cursor, or it ends in a
fault. The outcome of an action in sequence with another is the outcome of the second one from
where the first one ended, unless the first one faults.

## Key results

- `yields_bind_iff`, `faults_bind_iff`: outcomes of actions in sequence
- `yields_or_faults`: an action has an outcome from everywhere
- `not_yields_of_faults`: an action that ends in a fault yields nothing
- `Yields.unique`: an action yields one answer
-/

namespace SExprNav.Action

variable {κ : Type} {doc : Document} {α β : Type}

/-- Started at `c`, the action answers `a` and ends at `d`. -/
def Yields (x : Action κ doc α) (c : Cursor doc) (a : α) (d : Cursor doc) : Prop :=
  (x c).answer = .ok a ∧ (x c).cursor = d

/-- Started at `c`, the action ends in the fault `e`. -/
def Faults (x : Action κ doc α) (c : Cursor doc) (e : Fault) : Prop :=
  (x c).answer = .error e

/-- An action comes to an end: with an answer or in a fault. -/
theorem yields_or_faults (x : Action κ doc α) (c : Cursor doc) :
    (∃ a d, x.Yields c a d) ∨ ∃ e, x.Faults c e := by
  cases h : (x c).answer with
  | error e => exact .inr ⟨e, h⟩
  | ok a => exact .inl ⟨a, _, h, rfl⟩

/-- What ends in a fault has no answer. -/
theorem not_yields_of_faults {x : Action κ doc α} {c d : Cursor doc} {a : α} {e : Fault}
    (h : x.Faults c e) : ¬ x.Yields c a d := by
  intro hy
  exact nomatch h.symm.trans hy.1

/-- An action has one outcome. -/
theorem Yields.unique {x : Action κ doc α} {c d d' : Cursor doc} {a a' : α} (h : x.Yields c a d)
    (h' : x.Yields c a' d') : a = a' ∧ d = d' :=
  ⟨Except.ok.inj (h.1.symm.trans h'.1), h.2.symm.trans h'.2⟩

/-! ## Single actions -/

/-- An answer alone leaves the cursor where it is. -/
@[simp] theorem yields_pure {a b : α} {c d : Cursor doc} :
    (pure a : Action κ doc α).Yields c b d ↔ b = a ∧ d = c := by
  simp [Yields, pure_apply, eq_comm]

/-- An answer alone is no fault. -/
@[simp] theorem not_faults_pure {a : α} {c : Cursor doc} {e : Fault} :
    ¬ (pure a : Action κ doc α).Faults c e := by
  simp [Faults, pure_apply]

/-- A question is answered by the cursor, which stays where it is. -/
@[simp] theorem yields_ask {q : Cursor doc → α} {a : α} {c d : Cursor doc} :
    (ask q : Action κ doc α).Yields c a d ↔ a = q c ∧ d = c := by
  simp [Yields, ask, eq_comm]

/-- Questions do not fault. -/
@[simp] theorem not_faults_ask {q : Cursor doc → α} {c : Cursor doc} {e : Fault} :
    ¬ (ask q : Action κ doc α).Faults c e := by
  simp [Faults, ask]

/-- Recording an event does not fault. -/
@[simp] theorem not_faults_record {event : Event κ} {c : Cursor doc} {e : Fault} :
    ¬ (record event : Action κ doc Unit).Faults c e := by
  simp [Faults, record]

/-- A result that is given is answered where the cursor is. -/
@[simp] theorem yields_ofExcept {r : Except Fault α} {a : α} {c d : Cursor doc} :
    (ofExcept r : Action κ doc α).Yields c a d ↔ r = .ok a ∧ d = c := by
  cases r with
  | ok b => simp [Yields, ofExcept, Action.pure, eq_comm]
  | error e => simp [Yields, ofExcept, fault]

/-- A fault that is given is that of the action. -/
@[simp] theorem faults_ofExcept {r : Except Fault α} {c : Cursor doc} {e : Fault} :
    (ofExcept r : Action κ doc α).Faults c e ↔ r = .error e := by
  cases r with
  | ok b => simp [Faults, ofExcept, Action.pure]
  | error e => simp [Faults, ofExcept, fault]

/-- Taking steps answers the move that was achieved, or nothing if there was no step. -/
theorem yields_go_some {dir : Direction} {n : Nat} {m : Move} {c d : Cursor doc} :
    (go dir n : Action κ doc (Option Move)).Yields c (some m) d ↔ c.go dir n = some (m, d) := by
  unfold Yields go
  cases h : c.go dir n with
  | none => simp
  | some p => simp [Prod.ext_iff]

/-- Without a step, the cursor stays where it is. -/
theorem yields_go_none {dir : Direction} {n : Nat} {c d : Cursor doc} :
    (go dir n : Action κ doc (Option Move)).Yields c none d ↔ c.go dir n = none ∧ d = c := by
  unfold Yields go
  cases h : c.go dir n with
  | none => simp [eq_comm]
  | some p => simp

/-- A movement answers whether it was possible; if not, it ends where it started. -/
theorem yields_tryMove_true {f : Cursor doc → Option (Cursor doc)} {c d : Cursor doc} :
    (tryMove f : Action κ doc Bool).Yields c true d ↔ f c = some d := by
  unfold Yields tryMove
  cases h : f c <;> simp

/-- A movement that is not possible leaves the cursor where it is. -/
theorem yields_tryMove_false {f : Cursor doc → Option (Cursor doc)} {c d : Cursor doc} :
    (tryMove f : Action κ doc Bool).Yields c false d ↔ f c = none ∧ d = c := by
  unfold Yields tryMove
  cases h : f c <;> simp [eq_comm]

/-- Taking steps does not fault. -/
@[simp] theorem not_faults_go {dir : Direction} {n : Nat} {c : Cursor doc} {e : Fault} :
    ¬ (go dir n : Action κ doc (Option Move)).Faults c e := by
  unfold Faults go
  cases c.go dir n <;> simp

/-! ## Actions in sequence -/

/-- Actions in sequence answer if both do, the second one from where the first one ended. -/
theorem yields_bind_iff {x : Action κ doc α} {f : α → Action κ doc β} {c d : Cursor doc} {b : β} :
    (x >>= f).Yields c b d ↔ ∃ a c', x.Yields c a c' ∧ (f a).Yields c' b d := by
  -- By whether the first action faults or answers.
  rcases hx : x c with ⟨e | a, c', log⟩
  · simp [Yields, bind_of_error hx, hx]
  · simp [Yields, bind_of_ok hx, hx, and_assoc]

/-- Actions in sequence fault if the first one does, or if it answers and the second one faults. -/
theorem faults_bind_iff {x : Action κ doc α} {f : α → Action κ doc β} {c : Cursor doc} {e : Fault} :
    (x >>= f).Faults c e ↔ x.Faults c e ∨ ∃ a c', x.Yields c a c' ∧ (f a).Faults c' e := by
  rcases hx : x c with ⟨e' | a, c', log⟩
  · simp [Faults, Yields, bind_of_error hx, hx]
  · simp [Faults, Yields, bind_of_ok hx, hx, and_assoc]

/-- An action with another answer ends where the action does. -/
theorem yields_bind_pure_iff {x : Action κ doc α} {f : α → β} {c d : Cursor doc} {b : β} :
    (x >>= fun a => pure (f a)).Yields c b d ↔ ∃ a, x.Yields c a d ∧ b = f a := by
  rw [yields_bind_iff]
  constructor
  · rintro ⟨a, c', hx, hb⟩
    obtain ⟨rfl, rfl⟩ := yields_pure.mp hb
    exact ⟨a, hx, rfl⟩
  · rintro ⟨a, hx, rfl⟩
    exact ⟨a, d, hx, yields_pure.mpr ⟨rfl, rfl⟩⟩

/-- An action with another answer ends in the faults of the action. -/
theorem faults_bind_pure_iff {x : Action κ doc α} {f : α → β} {c : Cursor doc} {e : Fault} :
    (x >>= fun a => pure (f a)).Faults c e ↔ x.Faults c e := by
  rw [faults_bind_iff]
  simp

/-- An action with its answer changed ends where the action does. -/
theorem yields_map_iff {x : Action κ doc α} {f : α → β} {c d : Cursor doc} {b : β} :
    (f <$> x).Yields c b d ↔ ∃ a, x.Yields c a d ∧ b = f a := by
  rw [← bind_pure_comp, yields_bind_pure_iff]

/-- A success is not rolled back. -/
theorem yields_rollback_some {x : Action κ doc (Option α)} {c d : Cursor doc} {a : α} :
    x.rollback.Yields c (some a) d ↔ x.Yields c (some a) d := by
  unfold Yields rollback
  rcases hx : x c with ⟨e | (_ | b), c', log⟩ <;> simp

/-- Without an answer, a rollback ends where it started. -/
theorem yields_rollback_none {x : Action κ doc (Option α)} {c d : Cursor doc} :
    x.rollback.Yields c none d ↔ d = c ∧ ∃ d', x.Yields c none d' := by
  unfold Yields rollback
  rcases hx : x c with ⟨e | (_ | b), c', log⟩ <;> simp [eq_comm]

/-- A rollback keeps faults. -/
theorem faults_rollback_iff {x : Action κ doc (Option α)} {c : Cursor doc} {e : Fault} :
    x.rollback.Faults c e ↔ x.Faults c e := by
  unfold Faults rollback
  rcases hx : x c with ⟨e | (_ | b), c', log⟩ <;> simp

/-- After a fault, too, a rollback ends where it started. -/
theorem cursor_rollback_of_faults {x : Action κ doc (Option α)} {c : Cursor doc} {e : Fault}
    (h : x.Faults c e) : (x.rollback c).cursor = c := by
  unfold Faults at h
  unfold rollback
  rcases hx : x c with ⟨e | a, c', log⟩
  · rfl
  · rw [hx] at h; exact nomatch h

end SExprNav.Action
