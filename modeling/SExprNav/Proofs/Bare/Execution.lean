import SExprNav.Proofs.Bare.Tracking
import SExprNav.Proofs.Process.Execution
import SExprNav.Proofs.Traversal.Combinators

/-!
# Executions on bare positions

Started at a cursor, a program for bare positions tracks an action if it ends, with the answer or
the fault of the action and where the action ends. Each way to put programs together tracks the way
to put actions together, the loops among them: a loop without a bound goes along the trail of the
loop of actions. So the execution of a traversal on bare positions tracks its execution, if the
conditions do.

## Key results

- `Tracks.compatible`: combinators track combinators
- `Tracks.untilStuck`, `Tracks.detour`: so do loops
- `loop_goRound`: a loop goes along the trail
- `Traversal.tracks_bare`: executions
-/

namespace SExprNav

variable {κ : Type} {limit : Option Nat} {doc : Document} {α β : Type}

namespace Bare

/-- From every cursor, the program ends with what comes of the action. -/
def Tracks (x : Bare limit doc α) (y : Action κ doc α) : Prop :=
  ∀ c : Cursor doc, x c.pos = Part.some ((y c).answer, (y c).cursor.pos)

/-- A program that answers a question tracks the action that asks it. -/
theorem Answers.tracks {x : Bare limit doc α} {question : Cursor doc → α} (hx : Answers x question) :
    Tracks x (Action.ask question : Action κ doc α) := hx

/-- A program that makes a movement tracks the action that tries it. -/
theorem Moves.tracks {x : Bare limit doc Bool} {m : Cursor doc → Option (Cursor doc)} (hx : Moves x m) :
    Tracks x (Action.tryMove m : Action κ doc Bool) := by
  intro c
  unfold Action.tryMove
  cases h : m c with
  | none => exact hx.of_none h
  | some d => exact hx.of_some h

/-- A row of steps achieves what it achieves of cursors, and leads where it leads. -/
theorem tracks_go (dir : Direction) (n : Int) :
    Tracks (go dir n : Bare limit doc (Option Move))
      (Action.go dir n.toNat : Action κ doc (Option Move)) := by
  intro c
  rw [Bare.go, bind_of_ok (steps_apply (moves_one dir) n.toNat c), pure_apply]
  unfold Action.go Cursor.go
  -- Without a step there is no move to report.
  rcases h : Cursor.repeated (Cursor.step? dir) n.toNat c with ⟨_ | k, c'⟩
  · rw [Cursor.repeated_of_zero h]
    rfl
  · rfl

/-- Putting the cursor somewhere is checked against the text in the same way. -/
theorem tracks_put (p : Int) :
    Tracks (put p : Bare limit doc Unit) (Action.place limit p : Action κ doc Unit) := by
  intro c
  unfold put Action.place Document.place
  split <;> rfl

namespace Tracks

/-- Answers alone track one another. -/
theorem pure (a : α) : Tracks (pure a : Bare limit doc α) (Pure.pure a : Action κ doc α) :=
  fun _ => rfl

/-- Programs in sequence track actions in sequence. -/
theorem bind {x : Bare limit doc α} {y : Action κ doc α} {f : α → Bare limit doc β}
    {g : α → Action κ doc β}
    (hx : Tracks x y) (hf : ∀ a, Tracks (f a) (g a)) : Tracks (x >>= f) (y >>= g) := by
  intro c
  have hc := hx c
  rcases hy : y c with ⟨e | a, d, log⟩ <;> rw [hy] at hc
  · rw [bind_of_error hc, Action.bind_of_error hy]
  · rw [bind_of_ok hc, Action.bind_of_ok hy]
    exact hf a d

/-- Programs with their answers changed track actions with the same change. -/
theorem map {x : Bare limit doc α} {y : Action κ doc α} (hx : Tracks x y) (f : α → β) :
    Tracks (f <$> x) (f <$> y) := by
  rw [← bind_pure_comp f y]
  exact hx.bind fun a => pure (f a)

section Combinators

variable {x x' : Bare limit doc Executed} {y y' : Action κ doc Executed}

/-- A move on bare positions tracks the move. -/
theorem travel (m : Move) :
    Tracks (travel m : Bare limit doc Executed) (Action.travel m : Action κ doc Executed) := by
  unfold Bare.travel Action.travel
  cases m.heading with
  | none => exact pure none
  | some p => exact (tracks_go p.1 p.2).bind fun achieved => pure _

/-- Answers and sequences that track actions make all combinators track actions. -/
theorem compatible :
    Compatible fun α => (Tracks : Bare limit doc α → Action κ doc α → Prop) where
  pure := pure
  bind := bind

/-- Putting the cursor back does not fault, as it was in the text before. -/
theorem attempt (hx : Tracks x y) (t : Traversal κ) : Tracks (attempt x) (y.attempt t) := by
  intro c
  have hc := hx c
  rw [Action.answer_attempt, Action.cursor_attempt]
  unfold Bare.attempt Action.rollback
  rw [bind_of_ok (position_apply _)]
  rw [bind_of_ok (caught_apply hc)]
  -- After a fault and after a failure, the cursor is put back, and this does not fault.
  rcases y c with ⟨e | (_ | ms), d, log⟩
  · exact bind_of_ok (put_pos c _)
  · exact bind_of_ok (put_pos c _)
  · rfl

end Combinators

end Tracks

/-! ## Loops -/

open Tracks (compatible)

/-- What comes of a loop that goes along a trail from `c` after some moves: its answer, and where it
    ends. -/
def loopEnd (finish : List Move → β → Executed) (result : List Move → Executed)
    (back : Cursor doc → Cursor doc → Cursor doc) (t : Trail κ doc (List Move) β) (c : Cursor doc)
    (ms : List Move) : Except Fault Executed × Nat :=
  match t.last.answer with
  | .error e => (.error e, t.last.cursor.pos)
  | .ok (.done b) => (.ok (finish (ms ++ t.kept.flatMap (·.1)) b), t.last.cursor.pos)
  | .ok (.again _) =>
    (.ok (result (ms ++ t.kept.flatMap (·.1))), (back (t.lastStart c) t.last.cursor).pos)

section Loop

variable {round : Bare limit doc (Verdict (List Move) β)} {round' : Action κ doc (Verdict (List Move) β)}

/-- The moves of a kept round come after those before it and before those of the other rounds. -/
theorem loopEnd_cons {finish : List Move → β → Executed} {result : List Move → Executed}
    {back : Cursor doc → Cursor doc → Cursor doc} (t : Trail κ doc (List Move) β)
    (c d : Cursor doc) (ms ns : List Move) (log : List (Event κ)) :
    loopEnd finish result back { t with kept := (ns, d) :: t.kept, log := log } c ms =
      loopEnd finish result back t d (ms ++ ns) := by
  unfold loopEnd
  rw [Trail.lastStart_cons, List.flatMap_cons, List.append_assoc]

/-- A loop from somewhere on goes along the trail from there on. -/
theorem loop_goRound (finish : List Move → β → Executed)
    (stuck : Nat → List Move → Bare limit doc Executed) (result : List Move → Executed)
    (back : Cursor doc → Cursor doc → Cursor doc) (hround : Tracks round round')
    (hstuck : ∀ (c d : Cursor doc) ms,
      stuck c.pos ms d.pos = Part.some (.ok (result ms), (back c d).pos))
    (visited : List (Cursor doc)) (c : Cursor doc) (ms : List Move) :
    loop (goRound round finish stuck) (visited.map Cursor.pos, ms) c.pos =
      Part.some (loopEnd finish result back (Action.trail round' visited c) c ms) := by
  fun_induction Action.trail round' visited c generalizing ms with
  | case1 visited c ns d log h hd =>
    -- The round comes back to a visited position, where the loop is stuck.
    have hc := hround c
    rw [h] at hc
    have hend : loopEnd finish result back { last := ⟨.ok (.again ns), d, log⟩, log } c ms =
        (.ok (result ms), (back c d).pos) := by
      rw [loopEnd, List.flatMap_nil, List.append_nil]
      rfl
    rw [hend]
    apply loop_of_done
    rw [goRound, bind_of_ok (position_apply _), bind_of_ok hc]
    show (position >>= _) d.pos = _
    rw [bind_of_ok (position_apply _), if_pos (List.mem_map_of_mem hd), bind_of_ok (hstuck c d ms),
      pure_apply]
  | case2 visited c ns d log h hd t ih =>
    -- The round leads to a new position: a cursor is visited if its position is.
    have hc := hround c
    rw [h] at hc
    have hnew : d.pos ∉ visited.map Cursor.pos := fun hmem => by
      obtain ⟨c', hc', hpos⟩ := List.mem_map.mp hmem
      exact hd (Cursor.ext hpos ▸ hc')
    have hgo : goRound round finish stuck (visited.map Cursor.pos, ms) c.pos =
        Part.some (.ok (.inr ((d :: visited).map Cursor.pos, ms ++ ns)), d.pos) := by
      rw [goRound, bind_of_ok (position_apply _), bind_of_ok hc]
      show (position >>= _) d.pos = _
      rw [bind_of_ok (position_apply _), if_neg hnew]
      rfl
    rw [loop_of_again hgo, ih (ms ++ ns), loopEnd_cons]
  | case3 visited c hstop =>
    -- The round does not go on, be it that it is done or that it faults.
    have hc := hround c
    rcases h : round' c with ⟨e | (ns | b), d, log⟩ <;> rw [h] at hc
    · apply loop_of_error
      rw [goRound, bind_of_ok (position_apply _)]
      exact bind_of_error hc
    · exact absurd h (hstop ns d log)
    · have hend : loopEnd finish result back { last := ⟨.ok (.done b), d, log⟩, log } c ms =
          (.ok (finish ms b), d.pos) := by
        rw [loopEnd, List.flatMap_nil, List.append_nil]
      rw [hend]
      apply loop_of_done
      rw [goRound, bind_of_ok (position_apply _), bind_of_ok hc]
      rfl

end Loop

section Repetitions

variable {x x' : Bare limit doc Executed} {y y' : Action κ doc Executed}

/-- A repetition that fails does so where it started, so that only one that comes back to a position
    has to be undone. -/
theorem Tracks.untilStuck (hx : Tracks x y) (hy : y.Restores) :
    Tracks x.untilStuck y.untilStuck := by
  intro c
  have hloop := loop_goRound (fun ms _ => some ms)
    (fun before ms => do put before; Pure.pure (some ms)) some (fun before _ => before)
    (compatible.again hx)
    ?undo [c] c []
  case undo =>
    intro c d ms
    rw [bind_of_ok (put_pos c _), pure_apply]
  rw [Bare.untilStuck, bind_of_ok (position_apply _)]
  refine hloop.trans (congrArg Part.some ?_)
  -- A loop that is done stays where the last round failed, and that is where this round started.
  have hdone := Process.cursor_last_of_done (hy _ _) (c := c)
  unfold loopEnd Action.untilStuck
  dsimp only
  rcases h : (Action.trail (Executed.again y) [c] c).last.answer with e | (ns | _)
  · rfl
  · rfl
  · rw [hdone h]
    rfl

/-- A detour on bare positions tracks the detour. -/
theorem Tracks.detour (hx : Tracks x y) (hx' : Tracks x' y') :
    Tracks (x.detour x') (y.detour y') := by
  intro c
  have hloop := loop_goRound (fun ms result => result.map (ms ++ ·)) (fun _ _ => Pure.pure none)
    (fun _ => none) (fun _ after => after) (compatible.reorient hx hx') (fun _ _ _ => rfl) [c] c []
  rw [Bare.detour, bind_of_ok (position_apply _)]
  refine hloop.trans (congrArg Part.some ?_)
  unfold loopEnd Action.detour
  dsimp only
  rcases h : (Action.trail (Executed.reorient y y') [c] c).last.answer with e | (ns | _ | ns) <;> rfl

end Repetitions

end Bare

/-! ## Traversals -/

open Bare.Tracks (compatible)

namespace Traversal

variable {meaning : κ → Action κ doc Bool} {custom : κ → Bare limit doc Bool}

/-- A condition on bare positions tracks the condition, if it does in case it is from outside the
    library. -/
theorem tracks_condition {k : Condition κ}
    (h : ∀ k', k = .custom k' → Bare.Tracks (custom k') (meaning k')) :
    Bare.Tracks (k.bare custom) (k.test meaning) := by
  cases k with
  | always => exact .pure true
  | holds b => exact (Bare.answers_atBoundary b).tracks
  | fails b => exact (Bare.answers_atBoundary b).tracks.map _
  | custom k' => exact h k' rfl

/-- The execution on bare positions tracks the execution, if it does for the conditions. -/
theorem tracks_bare {t : Traversal κ}
    (h : ∀ k ∈ t.conditions, Bare.Tracks (k.bare custom) (k.test meaning)) :
    Bare.Tracks (t.bare custom) (t.execute meaning) := by
  -- Each kind of traversal is an attempt at its combinator, and combinators track combinators.
  induction t using Traversal.induction with
  | move m =>
    rw [execute_eq_attempt, bare]
    exact (Bare.Tracks.travel m).attempt _
  | maneuver phases ih =>
    rw [execute_eq_attempt, bare, bareAll_eq_map]
    refine (compatible.inSequence (forall₂_map_of_mem fun t ht => ih t ht ?_)).attempt _
    exact conditions_of_mem_maneuver ht h
  | circuit body times ih =>
    have hbody := ih (conditions_of_circuit h)
    rw [execute_eq_attempt]
    cases times with
    | none =>
      rw [bare]
      exact (hbody.untilStuck (restores_execute meaning body)).attempt _
    | some n =>
      rw [bare]
      exact (compatible.repeated hbody n).attempt _
  | detour reorientation body ihr ihb =>
    obtain ⟨hr, hb⟩ := conditions_of_detour h
    rw [execute_eq_attempt, bare]
    exact ((ihr hr).detour (ihb hb)).attempt _
  | precaution body before after ih =>
    obtain ⟨hbefore, hafter, hbody⟩ := conditions_of_precaution h
    rw [execute_eq_attempt, bare]
    exact (compatible.guarded hbefore (ih hbody) hafter).attempt _
  | protocol options ih =>
    rw [execute_eq_attempt, bare, bareAll_eq_map]
    refine (compatible.firstOf (forall₂_map_of_mem fun t ht => ih t ht ?_)).attempt _
    exact conditions_of_mem_protocol ht h

end Traversal

end SExprNav
