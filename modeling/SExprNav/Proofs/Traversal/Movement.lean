import SExprNav.Proofs.Cursor.Advance
import SExprNav.Proofs.Traversal.Combinators
import SExprNav.Traversal.Standard

/-!
# Traversals as movements

An action follows a movement of cursors if it succeeds wherever the movement is possible, and leads
to the same place, and if it fails and stays everywhere else. Traversals that are put together from
steps follow movements that are put together in the same way. A loop follows a movement if what it
repeats is an advance: then it does not come back to a position, and its end is not cut off.

## Key results

- `Traversal.yields_move_some`, `Traversal.yields_step_some`: when a move or a step succeeds
- `Action.Follows.untilStuck`: a repetition follows the movement made as often as possible
- `Action.Follows.detour`: a detour follows the movement made until a goal can be reached
- `Standard.follows_preorder`, `Standard.follows_preorderBackward`,
  `Standard.follows_postorder`, `Standard.follows_postorderBackward`: the depth-first walks as
  movements
-/

namespace SExprNav

variable {κ : Type} {doc : Document}

/-- One step in a direction is its unit move. -/
theorem Direction.move_one (dir : Direction) : dir.move 1 = dir.unit := by
  cases dir <;> rfl

/-- No steps have no direction. -/
theorem Direction.heading_move_zero (dir : Direction) : (dir.move 0).heading = none := by
  cases dir <;> rfl

/-- No steps are no movement. -/
theorem Cursor.go_zero (c : Cursor doc) (dir : Direction) : c.go dir 0 = none := rfl

namespace Action

open Executed (again andThen firstOf reorient)

variable {x y : Action κ doc Executed} {f g : Cursor doc → Option (Cursor doc)}

/-- The action succeeds where the movement is possible, and leads where the movement does. Where the
    movement is not possible, it fails and stays. -/
structure Follows (x : Action κ doc Executed) (f : Cursor doc → Option (Cursor doc)) : Prop where
  success : ∀ {c d}, f c = some d → ∃ ms, x.Yields c (some ms) d
  failure : ∀ {c}, f c = none → x.Yields c none c

/-- The outcome of an action comes with some events. -/
theorem Yields.exists_log {α : Type} {x : Action κ doc α} {c d : Cursor doc} {a : α}
    (h : x.Yields c a d) : ∃ log, x c = ⟨.ok a, d, log⟩ := by
  obtain ⟨hanswer, hcursor⟩ := h
  exact ⟨(x c).log, by rw [← hanswer, ← hcursor]⟩

/-- A loop ends with a round that is done. -/
theorem trail_of_done {α β : Type} {round : Action κ doc (Verdict α β)} {c d : Cursor doc} {b : β}
    {visited : List (Cursor doc)} (h : round.Yields c (.done b) d) :
    trail round visited c = { last := round c, log := (round c).log } := by
  apply trail_of_stop
  intro a c' log hround
  have := (h.unique ⟨congrArg Run.answer hround, congrArg Run.cursor hround⟩).1
  exact nomatch this

namespace Follows

/-- A success leads where the movement does. -/
theorem eq_some_of_yields (hx : x.Follows f) {c d : Cursor doc} {ms : List Move}
    (h : x.Yields c (some ms) d) : f c = some d := by
  cases hf : f c with
  | none =>
    have := (h.unique (hx.failure hf)).1
    exact nomatch this
  | some b =>
    obtain ⟨ns, hns⟩ := hx.success hf
    rw [(h.unique hns).2]

/-! ## Moves, phases and options -/

/-- Without options there is no movement. -/
theorem firstOf_nil : (firstOf [] : Action κ doc Executed).Follows fun _ => none where
  success h := nomatch h
  failure _ := yields_pure.mpr ⟨rfl, rfl⟩

/-- The first option to be possible is the one that is followed. -/
theorem firstOf_cons {xs : List (Action κ doc Executed)} (hx : x.Follows f)
    (hxs : (firstOf xs).Follows g) : (firstOf (x :: xs)).Follows fun c => (f c).or (g c) := by
  constructor
  · intro c d h
    cases hf : f c with
    | some b =>
      rw [hf, Option.some_or] at h
      cases h
      obtain ⟨ms, hms⟩ := hx.success hf
      exact ⟨ms, yields_firstOf_cons_some.mpr (.inl hms)⟩
    | none =>
      rw [hf, Option.none_or] at h
      obtain ⟨ms, hms⟩ := hxs.success h
      exact ⟨ms, yields_firstOf_cons_some.mpr (.inr ⟨c, hx.failure hf, hms⟩)⟩
  · intro c h
    obtain ⟨hf, hg⟩ := Option.or_eq_none_iff.mp h
    exact yields_firstOf_cons_none.mpr ⟨c, hx.failure hf, hxs.failure hg⟩

/-- One action and then another succeed where both movements are possible. -/
theorem andThen_success (hx : x.Follows f) (hy : y.Follows g) {c d : Cursor doc}
    (h : (f c).bind g = some d) : ∃ ms, (andThen x y).Yields c (some ms) d := by
  obtain ⟨b, hf, hg⟩ := Option.bind_eq_some_iff.mp h
  obtain ⟨ms, hms⟩ := hx.success hf
  obtain ⟨ns, hns⟩ := hy.success hg
  exact ⟨ms ++ ns, yields_andThen_some.mpr ⟨ms, b, ns, hms, hns, rfl⟩⟩

/-- They fail where one of the movements is not possible. -/
theorem andThen_failure (hx : x.Follows f) (hy : y.Follows g) {c : Cursor doc}
    (h : (f c).bind g = none) : ∃ d, (andThen x y).Yields c none d := by
  cases hf : f c with
  | none => exact ⟨c, yields_andThen_none.mpr (.inl (hx.failure hf))⟩
  | some b =>
    rw [hf, Option.bind_some] at h
    obtain ⟨ms, hms⟩ := hx.success hf
    exact ⟨b, yields_andThen_none.mpr (.inr ⟨ms, b, hms, hy.failure h⟩)⟩

/-! ## Loops -/

section Loops

variable {m : Advance doc}

/-- The rounds of a repetition follow the advance to its end. No round comes back to a visited
    position, because these rank no lower than the position where the round starts. -/
theorem trail_again (hx : x.Follows m.movement) (visited : List (Cursor doc)) (c : Cursor doc)
    (hvisited : m.Lowest c visited) :
    (trail (again x) visited c).lastStart c = m.farthest c ∧
      (trail (again x) visited c).last.answer = .ok (.done ()) := by
  fun_induction m.farthest c generalizing visited with
  | case1 c hstuck =>
    have hdone : (again x).Yields c (.done ()) c := yields_again_done.mpr (hx.failure hstuck)
    rw [trail_of_done hdone]
    exact ⟨rfl, hdone.1⟩
  | case2 c d hstep ih =>
    obtain ⟨ms, hms⟩ := hx.success hstep
    obtain ⟨log, hround⟩ := (yields_again.mpr hms).exists_log
    -- The round leads to a position of lower rank, so the loop does not end here.
    obtain ⟨hnew, hrest⟩ := hvisited.step hstep
    rw [trail_of_not_mem hround hnew, Trail.lastStart_cons]
    exact ih (d :: visited) hrest

/-- A repetition until failure follows the advance as far as it goes. -/
theorem untilStuck (hx : x.Follows m.movement) :
    x.untilStuck.Follows fun c => some (m.farthest c) where
  success {c d} h := by
    cases h
    obtain ⟨hstart, hlast⟩ := hx.trail_again [c] c (m.lowest_singleton c)
    refine ⟨_, yields_untilStuck.mpr ⟨fun e he => ?_, rfl, hstart.symm⟩⟩
    rw [hlast] at he
    exact nomatch he
  failure h := nomatch h

/-- The last round of a detour follows the goal, or fails to reorient. No round comes back to a
    visited position, as in `trail_again`. -/
theorem trail_reorient (hx : x.Follows m.movement) (hy : y.Follows g) (visited : List (Cursor doc))
    (c : Cursor doc) (hvisited : m.Lowest c visited) :
    let last := (trail (reorient x y) visited c).last
    match m.seek g c with
    | some d => last.cursor = d ∧ ∃ ms, last.answer = .ok (.done (some ms))
    | none => last.answer = .ok (.done none) := by
  fun_induction m.seek g c generalizing visited with
  | case1 c hstuck =>
    have hdone : (reorient x y).Yields c (.done none) c :=
      yields_reorient_failed.mpr (hx.failure hstuck)
    rw [trail_of_done hdone]
    exact hdone.1
  | case2 c b hstep ih =>
    obtain ⟨ms, hms⟩ := hx.success hstep
    cases hgoal : g b with
    | some d =>
      obtain ⟨ns, hns⟩ := hy.success hgoal
      have hdone : (reorient x y).Yields c (.done (some (ms ++ ns))) d :=
        yields_reorient_done.mpr ⟨ms, b, ns, hms, hns, rfl⟩
      rw [trail_of_done hdone]
      exact ⟨hdone.2, ms ++ ns, hdone.1⟩
    | none =>
      obtain ⟨log, hround⟩ :=
        (yields_reorient_again.mpr ⟨b, hms, hy.failure hgoal⟩).exists_log
      obtain ⟨hnew, hrest⟩ := hvisited.step hstep
      rw [trail_of_not_mem hround hnew, Option.none_or]
      exact ih (b :: visited) hrest

/-- A detour succeeds where its search does. -/
theorem detour_success (hx : x.Follows m.movement) (hy : y.Follows g) {c d : Cursor doc}
    (h : m.seek g c = some d) : ∃ ms, (x.detour y).Yields c (some ms) d := by
  have hlast := hx.trail_reorient hy [c] c (m.lowest_singleton c)
  rw [h] at hlast
  obtain ⟨hcursor, ms, hanswer⟩ := hlast
  unfold Yields detour
  simp only [hanswer]
  exact ⟨_, rfl, hcursor⟩

/-- A detour fails where its search does. -/
theorem detour_failure (hx : x.Follows m.movement) (hy : y.Follows g) {c : Cursor doc}
    (h : m.seek g c = none) : ∃ d, (x.detour y).Yields c none d := by
  have hlast := hx.trail_reorient hy [c] c (m.lowest_singleton c)
  rw [h] at hlast
  replace hlast : (trail (reorient x y) [c] c).last.answer = .ok (.done none) := hlast
  unfold Yields detour
  simp only [hlast]
  exact ⟨_, trivial, rfl⟩

end Loops

end Follows

end Action

open SExprNav.Action (Follows)

namespace Traversal

variable {meaning : κ → Action κ doc Bool} {t u : Traversal κ}
  {f g : Cursor doc → Option (Cursor doc)}

/-- An execution puts the cursor back when it fails, so it is enough for what it performs to fail
    where the movement is not possible. -/
theorem follows_execute
    (success : ∀ {c d}, f c = some d → ∃ ms, (t.perform meaning).Yields c (some ms) d)
    (failure : ∀ {c}, f c = none → ∃ d, (t.perform meaning).Yields c none d) :
    (t.execute meaning).Follows f where
  success h := by
    obtain ⟨ms, hms⟩ := success h
    exact ⟨ms, yields_execute_some.mpr hms⟩
  failure h := yields_execute_none.mpr ⟨rfl, failure h⟩

/-! ## Moves -/

section Moves

variable {dir : Direction} {n : Nat} {c d : Cursor doc} {ms : List Move}

/-- A move succeeds if a step of it is possible, and reports what was achieved. -/
theorem yields_move_some : ((move (dir.move n)).execute meaning).Yields c (some ms) d ↔
    ∃ m, c.go dir n = some (m, d) ∧ ms = [m] := by
  rw [yields_execute_some, perform, Action.yields_travel_some]
  cases n with
  | zero => simp [dir.heading_move_zero, c.go_zero]
  | succ n => simp [Move.heading_scale]

/-- A move along one axis fails if its steps are not possible. -/
theorem yields_move_none : ((move (dir.move n)).execute meaning).Yields c none d ↔
    c.go dir n = none ∧ d = c := by
  rw [yields_execute_none, perform]
  simp only [Action.yields_travel_none]
  cases n with
  | zero => simp [dir.heading_move_zero, c.go_zero]
  | succ n => simp [Move.heading_scale, and_comm]

/-- A step succeeds if it is possible, with its unit move. -/
theorem yields_step_some : ((step dir).execute meaning).Yields c (some ms) d ↔
    Cursor.step? dir c = some d ∧ ms = [dir.unit] := by
  rw [step, ← dir.move_one, yields_move_some, c.go_one]
  cases Cursor.step? dir c <;> simp [and_comm]

/-- A step fails if it is not possible. -/
theorem yields_step_none : ((step dir).execute meaning).Yields c none d ↔
    Cursor.step? dir c = none ∧ d = c := by
  rw [step, ← dir.move_one, yields_move_none, c.go_one]
  cases Cursor.step? dir c <;> simp

/-- A step follows the step of the cursor. -/
theorem follows_step (meaning : κ → Action κ doc Bool) (dir : Direction) :
    ((step dir).execute meaning).Follows (Cursor.step? dir) where
  success h := ⟨[dir.unit], yields_step_some.mpr ⟨h, rfl⟩⟩
  failure h := yields_step_none.mpr ⟨h, rfl⟩

end Moves

/-! ## Traversals put together -/

/-- A maneuver of two phases follows one movement after the other. -/
theorem follows_maneuver (ht : (t.execute meaning).Follows f) (hu : (u.execute meaning).Follows g) :
    ((maneuver [t, u]).execute meaning).Follows fun c => (f c).bind g := by
  -- The row of phases ends with an action that does nothing.
  have hrow : (Executed.inSequence [u.execute meaning]).Follows g := by
    have hend : (Executed.inSequence ([] : List (Action κ doc Executed))).Follows some :=
      ⟨fun h => ⟨[], by cases h; exact Action.yields_pure.mpr ⟨rfl, rfl⟩⟩, fun h => nomatch h⟩
    constructor
    · intro c d h
      exact hu.andThen_success hend (by rw [h]; rfl)
    · intro c h
      exact Action.yields_andThen_none.mpr (.inl (hu.failure h))
  apply follows_execute
  · exact fun h => ht.andThen_success hrow h
  · exact fun h => ht.andThen_failure hrow h

/-- A protocol follows the movement of its first possible option. -/
theorem follows_protocol {options : List (Traversal κ)}
    (h : (Executed.firstOf (options.map (execute meaning))).Follows f) :
    ((protocol options).execute meaning).Follows f :=
  follows_execute h.success fun hf => ⟨_, h.failure hf⟩

/-- A circuit without a number of times follows an advance as far as it goes. -/
theorem follows_circuit {m : Advance doc} (ht : (t.execute meaning).Follows m.movement) :
    ((circuit t none).execute meaning).Follows fun c => some (m.farthest c) :=
  follows_execute ht.untilStuck.success fun h => nomatch h

/-- A maneuver that ends with such a circuit follows the advance from where its first phase led. -/
theorem follows_maneuver_circuit {m : Advance doc} (ht : (t.execute meaning).Follows f)
    (hu : (u.execute meaning).Follows m.movement) :
    ((maneuver [t, circuit u none]).execute meaning).Follows fun c => (f c).map m.farthest := by
  have hmap : (fun c => (f c).map m.farthest) =
      fun c => (f c).bind fun d => some (m.farthest d) := by
    funext c
    cases f c <;> rfl
  rw [hmap]
  exact follows_maneuver ht (follows_circuit hu)

/-- A detour follows an advance until the goal can be reached. -/
theorem follows_detour {m : Advance doc} (ht : (t.execute meaning).Follows m.movement)
    (hu : (u.execute meaning).Follows g) :
    ((detour t u).execute meaning).Follows (m.seek g) :=
  follows_execute (ht.detour_success hu) (ht.detour_failure hu)

end Traversal

/-! ## The depth-first walks -/

namespace Standard

open Traversal

variable (meaning : κ → Action κ doc Bool)

/-- A step inward and then forward as far as possible lead to the last child. -/
theorem follows_lastChild :
    ((maneuver [step .inward, farthest .forward]).execute meaning).Follows Cursor.lastChild? :=
  follows_maneuver_circuit (m := Advance.forward doc) (follows_step meaning .inward)
    (follows_step meaning .forward)

/-- The walk in preorder follows its movement. -/
theorem follows_preorder :
    (Standard.preorder.traversal.execute meaning).Follows Cursor.preorder? := by
  have hdetour := follows_detour (m := Advance.outward doc) (follows_step meaning .outward)
    (follows_step meaning .forward)
  have hrow := (follows_step meaning .inward).firstOf_cons
    ((follows_step meaning .forward).firstOf_cons (hdetour.firstOf_cons .firstOf_nil))
  simp only [Option.or_none] at hrow
  exact follows_protocol hrow

/-- The walk backward in preorder follows its movement. -/
theorem follows_preorderBackward :
    (Standard.preorderBackward.traversal.execute meaning).Follows Cursor.preorderBackward? := by
  have hdescent := follows_maneuver_circuit (m := Advance.descent doc)
    (follows_step meaning .backward) (follows_lastChild meaning)
  have hrow := hdescent.firstOf_cons ((follows_step meaning .outward).firstOf_cons .firstOf_nil)
  simp only [Option.or_none] at hrow
  exact follows_protocol hrow

/-- The walk in postorder follows its movement. -/
theorem follows_postorder :
    (Standard.postorder.traversal.execute meaning).Follows Cursor.postorder? := by
  have hlowest := follows_maneuver_circuit (m := Advance.inward doc)
    (follows_step meaning .forward) (follows_step meaning .inward)
  have hrow := hlowest.firstOf_cons ((follows_step meaning .outward).firstOf_cons .firstOf_nil)
  simp only [Option.or_none] at hrow
  exact follows_protocol hrow

/-- The walk backward in postorder follows its movement. -/
theorem follows_postorderBackward :
    (Standard.postorderBackward.traversal.execute meaning).Follows Cursor.postorderBackward? := by
  have hdetour := follows_detour (m := Advance.outward doc) (follows_step meaning .outward)
    (follows_step meaning .backward)
  have hrow := (follows_lastChild meaning).firstOf_cons
    ((follows_step meaning .backward).firstOf_cons (hdetour.firstOf_cons .firstOf_nil))
  simp only [Option.or_none] at hrow
  exact follows_protocol hrow

end Standard

end SExprNav
