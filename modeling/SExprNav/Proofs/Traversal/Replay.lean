import SExprNav.Proofs.Cursor.Repetition
import SExprNav.Proofs.Process.Composition
import SExprNav.Proofs.Process.Execution

/-!
# Replaying an evaluation

The moves that an evaluation reports are the moves that it made: made again one after another, from
where the evaluation started, each of them is achieved in full and together they lead to where the
evaluation ended. `Cursor.Leads` says this of some moves and two cursors.

## Key results

- `Traversal.leads_of_evaluate`: the moves of an evaluation lead from its start to its end
- `Traversal.evaluate_moves`: moves that lead somewhere are replayed by the maneuver made of them
- `Traversal.evaluate_replay`: an evaluation is replayed by the moves that it reports
-/

namespace SExprNav

variable {κ : Type} {doc : Document} {σ : Type}

namespace Cursor

/-- The moves, made in full one after another, lead from the first cursor to the second. -/
inductive Leads : List Move → Cursor doc → Cursor doc → Prop where
  | nil (c : Cursor doc) : Leads [] c c
  | cons {dir n ms c c' d} : 0 < n → c.go dir n = some (dir.move n, c') → Leads ms c' d →
      Leads (dir.move n :: ms) c d

namespace Leads

theorem append {ms ns : List Move} {c c' d : Cursor doc} (h : Leads ms c c') (h' : Leads ns c' d) :
    Leads (ms ++ ns) c d := by
  induction h with
  | nil => exact h'
  | cons hn hgo _ ih => exact .cons hn hgo (ih h')

theorem composes : Composes (@Leads doc) := ⟨.nil, .append⟩

/-- Moves that lead somewhere are moves along one axis, and none of them is zero. -/
theorem along_one_axis {ms : List Move} {c d : Cursor doc} (h : Leads ms c d) :
    ∀ m ∈ ms, m.x ≠ 0 ∧ m.y = 0 ∨ m.x = 0 ∧ m.y ≠ 0 := by
  induction h with
  | nil => simp
  | @cons dir n ms c c' d hn hgo _ ih =>
    refine List.forall_mem_cons.mpr ⟨?_, ih⟩
    cases dir <;> simp [Direction.move, Direction.unit, Move.scale] <;> omega

end Leads

end Cursor

namespace Traversal

open Cursor (Leads)

variable {custom : κ → Process doc σ Bool} {t : Traversal κ} {c d : Cursor doc} {s s' : σ}
  {ms : List Move}

/-- The moves that an evaluation reports lead from where it started to where it ended. -/
theorem leads_of_evaluate (hstill : ∀ k ∈ t.conditions, k.Still custom)
    (h : ⟨.ok (some ms), d, s'⟩ ∈ t.evaluate custom c s) : Leads ms c d := by
  have hmoves : ∀ m ∈ t.moves, m.Ensures (@Leads doc) := by
    intro m _ p _ c achieved d hgo
    obtain ⟨k, hk, rfl, hfull⟩ := Cursor.go_achieved hgo
    exact .cons hk hfull (.nil d)
  exact Leads.composes.ensures_evaluate hmoves hstill _ _ _ _ _ h ms rfl

/-- A move that is possible is made, and the state does not matter. -/
theorem evaluate_move (custom : κ → Process doc σ Bool) {m achieved : Move} {dir : Direction}
    {n : Nat} (hm : m.heading = some (dir, n)) (hgo : c.go dir n = some (achieved, d)) (s : σ) :
    (move m).evaluate custom c s = Part.some ⟨.ok (some [achieved]), d, s⟩ := by
  have htravel : (Action.travel m : Action κ doc Executed).Yields c (some [achieved]) d :=
    Action.yields_travel_some.mpr ⟨dir, n, achieved, hm, hgo, rfl⟩
  refine Process.attempt_of_some ?_
  rw [Action.process, htravel.1, htravel.2]

/-- Moves that lead somewhere are replayed by the maneuver made of them. -/
theorem evaluate_moves (custom : κ → Process doc σ Bool) (h : Leads ms c d) (s : σ) :
    (maneuver (ms.map .move)).evaluate custom c s = Part.some ⟨.ok (some ms), d, s⟩ := by
  rw [evaluate, evaluateAll_eq_map]
  refine Process.attempt_of_some ?_
  induction h with
  | nil c => rfl
  | @cons dir n ms c c' d hn hgo _ ih =>
    have hmove := evaluate_move custom (Move.heading_scale dir hn) hgo s
    rw [List.map_cons, List.map_cons, Executed.inSequence, Executed.andThen, Process.bind_of_ok hmove]
    dsimp only
    rw [Process.bind_of_ok ih]
    rfl

/-- An evaluation that succeeds is replayed by the moves that it reports, whatever its conditions
    remember, as long as they leave the cursor where they found it: each of the moves is along one
    axis, and the maneuver made of them reports the same moves and ends at the same place, in any
    state. An evaluation that succeeds without a move ends where it started. -/
theorem evaluate_replay (custom : κ → Process doc σ Bool) (t : Traversal κ)
    (hstill : ∀ k ∈ t.conditions, k.Still custom) (c d : Cursor doc) (s s' : σ) (ms : List Move)
    (h : ⟨.ok (some ms), d, s'⟩ ∈ t.evaluate custom c s) :
    (∀ m ∈ ms, m.x ≠ 0 ∧ m.y = 0 ∨ m.x = 0 ∧ m.y ≠ 0) ∧
    (∀ s, (maneuver (ms.map .move)).evaluate custom c s = Part.some ⟨.ok (some ms), d, s⟩) ∧
    (ms = [] → d = c) := by
  have hleads := leads_of_evaluate hstill h
  refine ⟨hleads.along_one_axis, evaluate_moves custom hleads, ?_⟩
  rintro rfl
  cases hleads
  rfl

/-- A precaution that asks nothing before its body, by what is answered after it. -/
theorem evaluate_precaution {after : Condition κ} {c' : Cursor doc} {s₁ : σ} {b : Bool}
    (hbody : t.evaluate custom c s = Part.some ⟨.ok (some ms), d, s'⟩)
    (hafter : after.ask custom d s' = Part.some ⟨.ok b, c', s₁⟩) :
    (precaution t .always after).evaluate custom c s =
      Part.some (if b then ⟨.ok (some ms), c', s₁⟩ else ⟨.ok none, c, s₁⟩) := by
  have hbefore : (Condition.always : Condition κ).ask custom c s = Part.some ⟨.ok true, c, s⟩ := rfl
  have hguarded : Executed.guarded (Condition.always.ask custom) (t.evaluate custom)
      (after.ask custom) c s = Part.some ⟨.ok (if b then some ms else none), c', s₁⟩ := by
    rw [Executed.guarded, Process.bind_of_ok hbefore, if_pos rfl, Process.bind_of_ok hbody]
    dsimp only
    rw [Process.bind_of_ok hafter]
    cases b <;> rfl
  cases b with
  | true => exact Process.attempt_of_some hguarded
  | false => exact Process.attempt_of_none hguarded

/-- In `a b c`, a step is repeated until a condition has been asked twice: the second step is undone,
    and the one step that is left is replayed. -/
theorem evaluate_replay_undone_step :
    let doc := Document.ofText .lisp ['a', ' ', 'b', ' ', 'c']
    let custom : Unit → Process doc Nat Bool := fun _ c asked =>
      Part.some ⟨.ok (asked = 0), c, asked + 1⟩
    let t : Traversal Unit := .circuit (.precaution (.step .forward) .always (.custom ())) none
    (∀ k ∈ t.conditions, k.Still custom) ∧
    ⟨.ok (some [⟨1, 0⟩]), doc.cursorAt 2, 2⟩ ∈ t.evaluate custom (doc.cursorAt 0) 0 ∧
    ∀ s, (maneuver [.move ⟨1, 0⟩]).evaluate custom (doc.cursorAt 0) s =
      Part.some ⟨.ok (some [⟨1, 0⟩]), doc.cursorAt 2, s⟩ := by
  intro doc custom t
  have hstill : ∀ k ∈ t.conditions, k.Still custom := by
    intro k hk
    simp only [t, step, conditions, List.mem_cons, List.not_mem_nil, or_false] at hk
    rcases hk with rfl | rfl
    · exact Condition.still_always custom
    · rintro c s a d s' hr
      cases Part.mem_some_iff.mp hr
      rfl
  let body : Traversal Unit := .precaution (.step .forward) .always (.custom ())
  have hfirst : body.evaluate custom (doc.cursorAt 0) 0 =
      Part.some ⟨.ok (some [⟨1, 0⟩]), doc.cursorAt 2, 1⟩ := by
    have hgo : (doc.cursorAt 0).go .forward 1 = some (⟨1, 0⟩, doc.cursorAt 2) := by decide +kernel
    exact evaluate_precaution (b := true) (evaluate_move custom rfl hgo 0) rfl
  have hsecond : body.evaluate custom (doc.cursorAt 2) 1 =
      Part.some ⟨.ok none, doc.cursorAt 2, 2⟩ := by
    have hgo : (doc.cursorAt 2).go .forward 1 = some (⟨1, 0⟩, doc.cursorAt 4) := by decide +kernel
    exact evaluate_precaution (b := false) (evaluate_move custom rfl hgo 1) rfl
  have hrun : ⟨.ok (some [⟨1, 0⟩]), doc.cursorAt 2, 2⟩ ∈
      t.evaluate custom (doc.cursorAt 0) 0 := by
    refine Part.eq_some_iff.mp (Process.attempt_of_some ?_)
    have hnew : doc.cursorAt 2 ∉ [doc.cursorAt 0] := by decide +kernel
    rw [Process.untilStuck, Process.countedUntilStuck, Process.loop,
      Process.goOn_of_not_mem (Process.bind_of_ok hfirst _) hnew,
      Process.goOn_of_done (Process.bind_of_ok hsecond _), Part.map_some]
    rfl
  exact ⟨hstill, hrun, (evaluate_replay custom t hstill _ _ _ _ _ hrun).2.1⟩

end Traversal

end SExprNav
