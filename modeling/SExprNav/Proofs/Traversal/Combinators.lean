import SExprNav.Proofs.Action.Rounds
import SExprNav.Traversal.Execute

/-!
# Outcomes of the combinators

For each of the six ways to put traversals together: what it takes to succeed, and what it takes to
end in a fault. Everything that is said of an execution later is said through these equivalences.

## Key results

- `Action.yields_andThen_some`, `Action.yields_firstOf_cons_some`, …: when a combinator succeeds
- `Action.faults_andThen_iff`, `Action.faults_firstOf_cons_iff`, …: when it ends in a fault
- `Traversal.execute_eq_attempt`: an execution is an attempt at what the kind of traversal says
- `Traversal.induction`: induction over traversals
-/

namespace SExprNav

variable {κ : Type} {doc : Document}

namespace Action

open Executed

variable {x y : Action κ doc Executed} {c d : Cursor doc} {ms : List Move} {e : Fault}

/-! ## Moves -/

/-- A move succeeds with what was achieved of it, if a step is possible in its direction. -/
theorem yields_travel_some {m : Move} : (travel m : Action κ doc Executed).Yields c (some ms) d ↔
    ∃ dir n m', m.heading = some (dir, n) ∧ c.go dir n = some (m', d) ∧ ms = [m'] := by
  unfold travel
  cases h : m.heading with
  | none => simp
  | some p =>
    obtain ⟨dir, n⟩ := p
    simp only [yields_bind_iff, yields_pure]
    constructor
    · rintro ⟨a, c', ha, hms, rfl⟩
      obtain ⟨m', rfl, rfl⟩ := Option.map_eq_some_iff.mp hms.symm
      exact ⟨dir, n, m', rfl, yields_go_some.mp ha, rfl⟩
    · rintro ⟨dir', n', m', hp, hgo, rfl⟩
      cases hp
      exact ⟨some m', d, yields_go_some.mpr hgo, rfl, rfl⟩

/-- A move fails where it is, if no step is possible in its direction or if it has none. -/
theorem yields_travel_none {m : Move} : (travel m : Action κ doc Executed).Yields c none d ↔
    (∀ dir n, m.heading = some (dir, n) → c.go dir n = none) ∧ d = c := by
  unfold travel
  cases h : m.heading with
  | none => simp
  | some p =>
    obtain ⟨dir, n⟩ := p
    simp only [yields_bind_iff, yields_pure]
    constructor
    · rintro ⟨a, c', ha, hms, rfl⟩
      obtain rfl := Option.map_eq_none_iff.mp hms.symm
      obtain ⟨hgo, rfl⟩ := yields_go_none.mp ha
      refine ⟨fun dir' n' hp => ?_, rfl⟩
      cases hp
      exact hgo
    · rintro ⟨hgo, rfl⟩
      exact ⟨none, d, yields_go_none.mpr ⟨hgo dir n rfl, rfl⟩, rfl, rfl⟩

/-- Moves do not fault. -/
theorem not_faults_travel {m : Move} : ¬ (travel m : Action κ doc Executed).Faults c e := by
  unfold travel
  cases m.heading with
  | none => exact not_faults_pure
  | some p =>
    rw [faults_bind_iff]
    rintro (h | ⟨_, _, _, h⟩) <;> simp at h

/-! ## One after the other -/

/-- One action and then another succeed if both do, and their moves are put together. -/
theorem yields_andThen_some : (andThen x y).Yields c (some ms) d ↔
    ∃ ms₁ c' ms₂, x.Yields c (some ms₁) c' ∧ y.Yields c' (some ms₂) d ∧ ms = ms₁ ++ ms₂ := by
  unfold andThen
  rw [yields_bind_iff]
  constructor
  -- The first action has failed or succeeded; after a failure there is nothing to answer with.
  · rintro ⟨_ | ms₁, c', hx, h⟩
    · simp at h
    · obtain ⟨r, hy, hr⟩ := yields_bind_pure_iff.mp h
      obtain ⟨ms₂, rfl, rfl⟩ := Option.map_eq_some_iff.mp hr.symm
      exact ⟨ms₁, c', ms₂, hx, hy, rfl⟩
  · rintro ⟨ms₁, c', ms₂, hx, hy, rfl⟩
    exact ⟨some ms₁, c', hx, yields_bind_pure_iff.mpr ⟨some ms₂, hy, rfl⟩⟩

/-- They fail if one of them does; the cursor stays where this one left it. -/
theorem yields_andThen_none : (andThen x y).Yields c none d ↔
    x.Yields c none d ∨ ∃ ms c', x.Yields c (some ms) c' ∧ y.Yields c' none d := by
  unfold andThen
  rw [yields_bind_iff]
  constructor
  · rintro ⟨_ | ms, c', hx, h⟩
    · obtain ⟨-, rfl⟩ := yields_pure.mp h
      exact .inl hx
    · obtain ⟨r, hy, hr⟩ := yields_bind_pure_iff.mp h
      obtain rfl := Option.map_eq_none_iff.mp hr.symm
      exact .inr ⟨ms, c', hx, hy⟩
  · rintro (hx | ⟨ms, c', hx, hy⟩)
    · exact ⟨none, d, hx, yields_pure.mpr ⟨rfl, rfl⟩⟩
    · exact ⟨some ms, c', hx, yields_bind_pure_iff.mpr ⟨none, hy, rfl⟩⟩

/-- They fault if the first one does, or if it succeeds and the second one faults. -/
theorem faults_andThen_iff : (andThen x y).Faults c e ↔
    x.Faults c e ∨ ∃ ms c', x.Yields c (some ms) c' ∧ y.Faults c' e := by
  unfold andThen
  rw [faults_bind_iff]
  constructor
  · rintro (hx | ⟨_ | ms, c', hx, h⟩)
    · exact .inl hx
    · simp at h
    · exact .inr ⟨ms, c', hx, faults_bind_pure_iff.mp h⟩
  · rintro (hx | ⟨ms, c', hx, hy⟩)
    · exact .inl hx
    · exact .inr ⟨some ms, c', hx, faults_bind_pure_iff.mpr hy⟩

/-! ## The first to succeed -/

/-- The first option to succeed decides; those before it have failed. -/
theorem yields_firstOf_cons_some {xs : List (Action κ doc Executed)} :
    (firstOf (x :: xs)).Yields c (some ms) d ↔
      x.Yields c (some ms) d ∨ ∃ c', x.Yields c none c' ∧ (firstOf xs).Yields c' (some ms) d := by
  rw [firstOf, yields_bind_iff]
  constructor
  -- If the first option has failed, the rest is tried where it left the cursor.
  · rintro ⟨_ | ms', c', hx, h⟩
    · exact .inr ⟨c', hx, h⟩
    · obtain ⟨heq, rfl⟩ := yields_pure.mp h
      exact .inl (heq ▸ hx)
  · rintro (hx | ⟨c', hx, h⟩)
    · exact ⟨some ms, d, hx, yields_pure.mpr ⟨rfl, rfl⟩⟩
    · exact ⟨none, c', hx, h⟩

/-- If there is an option, all fail if it does and then the others do. -/
theorem yields_firstOf_cons_none {xs : List (Action κ doc Executed)} :
    (firstOf (x :: xs)).Yields c none d ↔
      ∃ c', x.Yields c none c' ∧ (firstOf xs).Yields c' none d := by
  rw [firstOf, yields_bind_iff]
  constructor
  · rintro ⟨_ | ms, c', hx, h⟩
    · exact ⟨c', hx, h⟩
    · simp at h
  · rintro ⟨c', hx, h⟩
    exact ⟨none, c', hx, h⟩

/-- An option that is not tried cannot fault. -/
theorem faults_firstOf_cons_iff {xs : List (Action κ doc Executed)} :
    (firstOf (x :: xs)).Faults c e ↔
      x.Faults c e ∨ ∃ c', x.Yields c none c' ∧ (firstOf xs).Faults c' e := by
  rw [firstOf, faults_bind_iff]
  constructor
  · rintro (hx | ⟨_ | ms', c', hx, h⟩)
    · exact .inl hx
    · exact .inr ⟨c', hx, h⟩
    · simp at h
  · rintro (hx | ⟨c', hx, h⟩)
    · exact .inl hx
    · exact .inr ⟨none, c', hx, h⟩

/-! ## Until it fails -/

/-- A round of a repetition goes on if what is repeated succeeds. -/
theorem yields_again : (again x).Yields c (.again ms) d ↔ x.Yields c (some ms) d := by
  unfold again
  rw [yields_bind_iff]
  constructor
  · rintro ⟨_ | ms', c', hx, h⟩
    · simp at h
    · obtain ⟨heq, rfl⟩ := yields_pure.mp h
      cases heq
      exact hx
  · intro hx
    exact ⟨some ms, d, hx, yields_pure.mpr ⟨rfl, rfl⟩⟩

/-- A round of a repetition is the last one if what is repeated fails. -/
theorem yields_again_done : (again x).Yields c (.done ()) d ↔ x.Yields c none d := by
  unfold again
  rw [yields_bind_iff]
  constructor
  · rintro ⟨_ | ms, c', hx, h⟩
    · obtain ⟨-, rfl⟩ := yields_pure.mp h
      exact hx
    · simp at h
  · intro hx
    exact ⟨none, d, hx, yields_pure.mpr ⟨rfl, rfl⟩⟩

/-- A round of a repetition faults if what is repeated does. -/
theorem faults_again_iff : (again x).Faults c e ↔ x.Faults c e := by
  unfold again
  rw [faults_bind_iff, or_iff_left_iff_imp]
  rintro ⟨_ | ms, c', hx, h⟩ <;> simp at h

/-- A repetition until failure answers with the moves of the rounds that it kept and ends where
    the last one of them led, unless there is a fault. -/
theorem yields_untilStuck {r : Executed} : x.untilStuck.Yields c r d ↔
    (∀ e, (trail (again x) [c] c).last.answer ≠ .error e) ∧
      r = some ((trail (again x) [c] c).kept.flatMap (·.1)) ∧ d = (trail (again x) [c] c).lastStart c := by
  unfold Yields untilStuck
  cases h : (trail (again x) [c] c).last.answer with
  | error e => simp [h]
  | ok v => simp [h, eq_comm]

/-- A repetition faults if what is repeated does where one of the rounds starts. -/
theorem faults_untilStuck_iff : x.untilStuck.Faults c e ↔
    ∃ s ∈ (trail (again x) [c] c).starts c, x.Faults s e := by
  -- A repetition answers unless its last round faults, and no other round can.
  have h : x.untilStuck.Faults c e ↔ (trail (again x) [c] c).last.answer = .error e := by
    unfold Faults untilStuck
    cases h : (trail (again x) [c] c).last.answer <;> simp [h]
  rw [h, last_trail_fault_iff]
  simp only [faults_again_iff]

/-! ## Detours -/

/-- A round of a detour goes on if the reorientation succeeds and the other action fails after it.
    -/
theorem yields_reorient_again : (reorient x y).Yields c (.again ms) d ↔
    ∃ c', x.Yields c (some ms) c' ∧ y.Yields c' none d := by
  unfold reorient
  rw [yields_bind_iff]
  constructor
  · rintro ⟨_ | ms', c', hx, h⟩
    · simp at h
    obtain ⟨_ | ns, c'', hy, h⟩ := yields_bind_iff.mp h
    · obtain ⟨heq, rfl⟩ := yields_pure.mp h
      cases heq
      exact ⟨c', hx, hy⟩
    · simp at h
  · rintro ⟨c', hx, hy⟩
    exact ⟨some ms, c', hx, yields_bind_iff.mpr ⟨none, d, hy, yields_pure.mpr ⟨rfl, rfl⟩⟩⟩

/-- A round of a detour succeeds if both actions do. -/
theorem yields_reorient_done : (reorient x y).Yields c (.done (some ms)) d ↔
    ∃ ms₁ c' ms₂, x.Yields c (some ms₁) c' ∧ y.Yields c' (some ms₂) d ∧ ms = ms₁ ++ ms₂ := by
  unfold reorient
  rw [yields_bind_iff]
  constructor
  · rintro ⟨_ | ms₁, c', hx, h⟩
    · simp at h
    obtain ⟨_ | ms₂, c'', hy, h⟩ := yields_bind_iff.mp h
    · simp at h
    · obtain ⟨heq, rfl⟩ := yields_pure.mp h
      cases heq
      exact ⟨ms₁, c', ms₂, hx, hy, rfl⟩
  · rintro ⟨ms₁, c', ms₂, hx, hy, rfl⟩
    exact ⟨some ms₁, c', hx, yields_bind_iff.mpr ⟨some ms₂, d, hy, yields_pure.mpr ⟨rfl, rfl⟩⟩⟩

/-- A round of a detour ends the detour in failure if the reorientation fails. -/
theorem yields_reorient_failed : (reorient x y).Yields c (.done none) d ↔ x.Yields c none d := by
  unfold reorient
  rw [yields_bind_iff]
  constructor
  · rintro ⟨_ | ms, c', hx, h⟩
    · obtain ⟨-, rfl⟩ := yields_pure.mp h
      exact hx
    obtain ⟨_ | ns, c'', hy, h⟩ := yields_bind_iff.mp h <;> simp at h
  · intro hx
    exact ⟨none, d, hx, yields_pure.mpr ⟨rfl, rfl⟩⟩

/-- A round of a detour faults if the reorientation does, or the other action after it. -/
theorem faults_reorient_iff : (reorient x y).Faults c e ↔
    x.Faults c e ∨ ∃ ms c', x.Yields c (some ms) c' ∧ y.Faults c' e := by
  unfold reorient
  rw [faults_bind_iff]
  constructor
  · rintro (hx | ⟨_ | ms, c', hx, h⟩)
    · exact .inl hx
    · simp at h
    rcases faults_bind_iff.mp h with hy | ⟨_ | ns, c'', hy, h⟩
    · exact .inr ⟨ms, c', hx, hy⟩
    · simp at h
    · simp at h
  · rintro (hx | ⟨ms, c', hx, hy⟩)
    · exact .inl hx
    · exact .inr ⟨some ms, c', hx, faults_bind_iff.mpr (.inl hy)⟩

/-- A detour succeeds when its last round does: with the moves of all rounds. -/
theorem yields_detour_some : (x.detour y).Yields c (some ms) d ↔
    ∃ ns, (reorient x y).Yields ((trail (reorient x y) [c] c).lastStart c) (.done (some ns)) d ∧
      ms = (trail (reorient x y) [c] c).kept.flatMap (·.1) ++ ns := by
  unfold Yields detour
  -- The last round is the only one that can be done; any other verdict of it is a failure.
  rw [← last_trail (reorient x y) [c] c]
  rcases h : (trail (reorient x y) [c] c).last.answer with e | (a | (_ | ns))
  · simp [h]
  · simp [h]
  · simp [h]
  · simp only [h, Except.ok.injEq, Option.some.injEq, Verdict.done.injEq]
    constructor
    · rintro ⟨rfl, rfl⟩
      exact ⟨ns, ⟨rfl, rfl⟩, rfl⟩
    · rintro ⟨_, ⟨rfl, rfl⟩, rfl⟩
      exact ⟨rfl, rfl⟩

/-- A detour faults if one of its rounds does. -/
theorem faults_detour_iff : (x.detour y).Faults c e ↔
    ∃ s ∈ (trail (reorient x y) [c] c).starts c,
      x.Faults s e ∨ ∃ ms c', x.Yields s (some ms) c' ∧ y.Faults c' e := by
  -- A detour answers unless its last round faults, and no other round can.
  have h : (x.detour y).Faults c e ↔ (trail (reorient x y) [c] c).last.answer = .error e := by
    unfold Faults detour
    rcases h : (trail (reorient x y) [c] c).last.answer with e' | (a | (_ | ns)) <;> simp [h]
  rw [h, last_trail_fault_iff]
  simp only [faults_reorient_iff]

/-! ## Precautions -/

section Guarded

variable {before after : Action κ doc Bool}

/-- An action between conditions succeeds if it does and both conditions hold, the second one where
    the action led. -/
theorem yields_guarded_some : (guarded before x after).Yields c (some ms) d ↔
    ∃ c₁ c₂, before.Yields c true c₁ ∧ x.Yields c₁ (some ms) c₂ ∧ after.Yields c₂ true d := by
  unfold guarded
  rw [yields_bind_iff]
  constructor
  -- Three answers have to be right, one after the other; each time the other one is a failure.
  · rintro ⟨_ | _, c₁, hb, h⟩
    · simp at h
    obtain ⟨_ | ms', c₂, hx, h⟩ := yields_bind_iff.mp h
    · simp at h
    obtain ⟨_ | _, c₃, ha, h⟩ := yields_bind_iff.mp h
    · simp at h
    · obtain ⟨heq, rfl⟩ := yields_pure.mp h
      cases heq
      exact ⟨c₁, c₂, hb, hx, ha⟩
  · rintro ⟨c₁, c₂, hb, hx, ha⟩
    refine ⟨true, c₁, hb, yields_bind_iff.mpr ⟨some ms, c₂, hx, yields_bind_iff.mpr ?_⟩⟩
    exact ⟨true, d, ha, yields_pure.mpr ⟨rfl, rfl⟩⟩

/-- What is not reached because something before it fails cannot fault. -/
theorem faults_guarded_iff : (guarded before x after).Faults c e ↔
    before.Faults c e ∨ ∃ c₁, before.Yields c true c₁ ∧
      (x.Faults c₁ e ∨ ∃ ms c₂, x.Yields c₁ (some ms) c₂ ∧ after.Faults c₂ e) := by
  unfold guarded
  rw [faults_bind_iff]
  constructor
  · rintro (hb | ⟨_ | _, c₁, hb, h⟩)
    · exact .inl hb
    · simp at h
    rcases faults_bind_iff.mp h with hx | ⟨_ | ms, c₂, hx, h⟩
    · exact .inr ⟨c₁, hb, .inl hx⟩
    · simp at h
    rcases faults_bind_iff.mp h with ha | ⟨_ | _, c₃, ha, h⟩
    · exact .inr ⟨c₁, hb, .inr ⟨ms, c₂, hx, ha⟩⟩
    · simp at h
    · simp at h
  · rintro (hb | ⟨c₁, hb, hx | ⟨ms, c₂, hx, ha⟩⟩)
    · exact .inl hb
    · exact .inr ⟨true, c₁, hb, faults_bind_iff.mpr (.inl hx)⟩
    · refine .inr ⟨true, c₁, hb, faults_bind_iff.mpr (.inr ⟨some ms, c₂, hx, ?_⟩)⟩
      exact faults_bind_iff.mpr (.inl ha)

end Guarded

/-! ## Attempts -/

section Attempt

variable {t : Traversal κ}

/-- An attempt answers what the action answers when it is rolled back. -/
theorem answer_attempt : (attempt t x c).answer = (x.rollback c).answer := by
  unfold attempt
  rcases x.rollback c with ⟨e | (_ | ms), c', log⟩ <;> rfl

/-- An attempt ends where the action ends when it is rolled back. -/
theorem cursor_attempt : (attempt t x c).cursor = (x.rollback c).cursor := by
  unfold attempt
  rcases x.rollback c with ⟨e | (_ | ms), c', log⟩ <;> rfl

/-- The events of an attempt change nothing about its outcome. -/
theorem yields_attempt_iff {r : Executed} : (attempt t x).Yields c r d ↔ x.rollback.Yields c r d := by
  unfold Yields
  rw [answer_attempt, cursor_attempt]

/-- An attempt faults if the action does. -/
theorem faults_attempt_iff : (attempt t x).Faults c e ↔ x.Faults c e := by
  rw [← faults_rollback_iff (x := x)]
  unfold Faults
  rw [answer_attempt]

end Attempt

/-- The action leaves the cursor where it found it when it fails. -/
def Restores (x : Action κ doc Executed) : Prop := ∀ c d, x.Yields c none d → d = c

end Action

namespace Traversal

/-- What a traversal does, before it is known whether it succeeds. -/
def perform (meaning : κ → Action κ doc Bool) : Traversal κ → Action κ doc Executed
  | .move m => Action.travel m
  | .maneuver phases => Executed.inSequence (phases.map (execute meaning))
  | .circuit body none => (execute meaning body).untilStuck
  | .circuit body (some n) => Executed.repeated n (execute meaning body)
  | .detour reorientation body => (execute meaning reorientation).detour (execute meaning body)
  | .precaution body before after =>
    Executed.guarded (before.test meaning) (execute meaning body) (after.test meaning)
  | .protocol options => Executed.firstOf (options.map (execute meaning))

/-- An execution is an attempt at what the kind of traversal says. -/
theorem execute_eq_attempt (meaning : κ → Action κ doc Bool) (t : Traversal κ) :
    t.execute meaning = Action.attempt t (t.perform meaning) := by
  cases t with
  | move m => rw [execute, perform]
  | maneuver phases => rw [execute, perform, executeAll_eq_map]
  | circuit body times => cases times <;> rw [execute, perform]
  | detour reorientation body => rw [execute, perform]
  | precaution body before after => rw [execute, perform]
  | protocol options => rw [execute, perform, executeAll_eq_map]

section Outcome

variable {meaning : κ → Action κ doc Bool} {t : Traversal κ} {c d : Cursor doc}

/-- An execution succeeds if what the kind of traversal says does. -/
theorem yields_execute_some {ms : List Move} :
    (t.execute meaning).Yields c (some ms) d ↔ (t.perform meaning).Yields c (some ms) d := by
  rw [execute_eq_attempt, Action.yields_attempt_iff, Action.yields_rollback_some]

/-- A traversal that fails ends where it started. -/
theorem yields_execute_none :
    (t.execute meaning).Yields c none d ↔ d = c ∧ ∃ d', (t.perform meaning).Yields c none d' := by
  rw [execute_eq_attempt, Action.yields_attempt_iff, Action.yields_rollback_none]

/-- An execution faults if what the kind of traversal says does. -/
theorem faults_execute_iff {e : Fault} :
    (t.execute meaning).Faults c e ↔ (t.perform meaning).Faults c e := by
  rw [execute_eq_attempt, Action.faults_attempt_iff]

/-- A traversal that ends in a fault ends where it started. -/
theorem cursor_execute_of_faults {e : Fault} (h : (t.execute meaning).Faults c e) :
    (t.execute meaning c).cursor = c := by
  rw [faults_execute_iff] at h
  rw [execute_eq_attempt, Action.cursor_attempt]
  exact Action.cursor_rollback_of_faults h

end Outcome

/-- A traversal that fails has put the cursor back. -/
theorem restores_execute (meaning : κ → Action κ doc Bool) (t : Traversal κ) :
    (t.execute meaning).Restores :=
  fun _ _ h => (yields_execute_none.mp h).1

/-- Induction over traversals: a property that each kind of traversal has, as soon as its parts
    have it, holds of all traversals. -/
theorem induction {motive : Traversal κ → Prop}
    (move : ∀ m, motive (.move m))
    (maneuver : ∀ phases, (∀ t ∈ phases, motive t) → motive (.maneuver phases))
    (circuit : ∀ body times, motive body → motive (.circuit body times))
    (detour : ∀ reorientation body, motive reorientation → motive body →
      motive (.detour reorientation body))
    (precaution : ∀ body before after, motive body → motive (.precaution body before after))
    (protocol : ∀ options, (∀ t ∈ options, motive t) → motive (.protocol options))
    (t : Traversal κ) : motive t := by
  -- A row of traversals has the property if all of its members do.
  refine @Traversal.rec κ motive (fun ts => ∀ t ∈ ts, motive t) move maneuver circuit detour
    precaution protocol ?nil ?cons t
  case nil =>
    intro t h
    exact nomatch h
  case cons =>
    intro t ts ht hts u hu
    rcases List.mem_cons.mp hu with rfl | hu
    · exact ht
    · exact hts u hu

end Traversal

end SExprNav
