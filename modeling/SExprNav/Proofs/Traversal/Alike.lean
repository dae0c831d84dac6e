import SExprNav.Proofs.Action.Alike
import SExprNav.Proofs.Traversal.Combinators
import SExprNav.Proofs.Traversal.Compatible

/-!
# Executions alike

A traversal is executed alike on two documents, for a one-to-one relation between their cursors, if
taking steps and asking conditions are alike: both executions report the same moves, or fail, or
end in the same fault, and they end at related cursors.

## Key results

- `Action.Alike.compatible`: combinators make actions alike of actions alike
- `Action.Alike.untilStuck`, `Action.Alike.detour`: so do loops
- `Traversal.alike_execute`: executions of a traversal are alike
-/

namespace SExprNav

variable {κ : Type} {d e : Document} {R : Cursor d → Cursor e → Prop}

namespace Action.Alike

variable {x y : Action κ d Executed} {x' y' : Action κ e Executed}

/-- Moves are alike if steps are. -/
theorem travel (hgo : ∀ dir n, Alike R (Action.go dir n : Action κ d (Option Move))
      (Action.go dir n)) (m : Move) :
    Alike R (Action.travel m : Action κ d Executed) (Action.travel m) := by
  unfold Action.travel
  cases m.heading with
  | none => exact pure none
  | some p => exact (hgo p.1 p.2).bind fun achieved => pure _

/-- Answers and sequences alike make all combinators alike. -/
theorem compatible (R : Cursor d → Cursor e → Prop) :
    Compatible fun α => (Alike R : Action κ d α → Action κ e α → Prop) where
  pure := pure
  bind := bind

/-- The moves of rounds with the same shares are the same. -/
theorem flatMap_kept {β : Type} {t : Trail κ d (List Move) β} {t' : Trail κ e (List Move) β}
    (h : t.Alike R t') : t.kept.flatMap (·.1) = t'.kept.flatMap (·.1) := by
  rw [List.flatMap_def, List.flatMap_def, h.kept_shares]

/-- Repetitions are alike if what they repeat is: their rounds come back to positions at the same
    time. -/
theorem untilStuck (hR : Relator.BiUnique R) (hx : Alike R x x') :
    Alike R x.untilStuck x'.untilStuck := by
  intro c c' hc
  -- The loops are cut off at the same round, as positions that are visited correspond.
  have ht := trail hR ((compatible R).again hx) (.cons hc .nil) hc
  have hstart := ht.lastStart hc
  have hmoves := flatMap_kept ht
  have hanswer := ht.last.answer
  unfold Action.untilStuck
  dsimp only
  rw [← hanswer, ← hmoves]
  cases (Action.trail (Executed.again x) [c] c).last.answer with
  | error f => exact ⟨rfl, ht.last.cursor⟩
  | ok v => exact ⟨rfl, hstart⟩

/-- Detours are alike if both of their parts are. -/
theorem detour (hR : Relator.BiUnique R) (hx : Alike R x x') (hy : Alike R y y') :
    Alike R (x.detour y) (x'.detour y') := by
  intro c c' hc
  have ht := trail hR ((compatible R).reorient hx hy) (.cons hc .nil) hc
  have hmoves := flatMap_kept ht
  have hanswer := ht.last.answer
  unfold Action.detour
  dsimp only
  rw [← hanswer, ← hmoves]
  -- Whatever the last round answers, both detours end where it ends.
  rcases (Action.trail (Executed.reorient x y) [c] c).last.answer with f | (ms | (_ | ms))
  · exact ⟨rfl, ht.last.cursor⟩
  · exact ⟨rfl, ht.last.cursor⟩
  · exact ⟨rfl, ht.last.cursor⟩
  · exact ⟨rfl, ht.last.cursor⟩

/-- The events of attempts are not compared. -/
theorem attempt (hx : Alike R x x') (t : Traversal κ) :
    Alike R (Action.attempt t x) (Action.attempt t x') := by
  intro c c' hc
  have hrun := hx.rollback c c' hc
  constructor
  · rw [answer_attempt, answer_attempt]
    exact hrun.answer
  · rw [cursor_attempt, cursor_attempt]
    exact hrun.cursor

end Action.Alike

open Action.Alike (compatible)

namespace Traversal

/-- Executions of a traversal are alike, if taking steps and asking its conditions are. -/
theorem alike_execute (hR : Relator.BiUnique R)
    (hgo : ∀ dir n, Action.Alike R (Action.go dir n : Action κ d (Option Move)) (Action.go dir n))
    {meaning : κ → Action κ d Bool} {meaning' : κ → Action κ e Bool}
    (htest : ∀ k : Condition κ, Action.Alike R (k.test meaning) (k.test meaning'))
    (t : Traversal κ) : Action.Alike R (t.execute meaning) (t.execute meaning') := by
  -- Each kind of traversal is an attempt at its combinator, and combinators respect the relation.
  induction t using Traversal.induction with
  | move m =>
    rw [execute_eq_attempt, execute_eq_attempt]
    exact (Action.Alike.travel hgo m).attempt _
  | maneuver phases ih =>
    rw [execute_eq_attempt, execute_eq_attempt]
    exact ((compatible R).inSequence (forall₂_map_of_mem ih)).attempt _
  | circuit body times ih =>
    rw [execute_eq_attempt, execute_eq_attempt]
    cases times with
    | none => exact (Action.Alike.untilStuck hR ih).attempt _
    | some n => exact ((compatible R).repeated ih n).attempt _
  | detour reorientation body ihr ihb =>
    rw [execute_eq_attempt, execute_eq_attempt]
    exact (Action.Alike.detour hR ihr ihb).attempt _
  | precaution body before after ih =>
    rw [execute_eq_attempt, execute_eq_attempt]
    exact ((compatible R).guarded (htest before) ih (htest after)).attempt _
  | protocol options ih =>
    rw [execute_eq_attempt, execute_eq_attempt]
    exact ((compatible R).firstOf (forall₂_map_of_mem ih)).attempt _

end Traversal

end SExprNav
