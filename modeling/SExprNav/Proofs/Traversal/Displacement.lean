import SExprNav.Proofs.Cursor.Displacement
import SExprNav.Proofs.Process.Composition
import SExprNav.Proofs.Process.Execution

/-!
# What the net displacement of an evaluation says

The net displacement of an evaluation is where the cursor went: its depth is the difference of the
numbers of lists around the two cursors, and if the traversal moves to the side only, the cursor has
stayed within its list and the displacement counts the expressions between. Both hold in unbalanced
texts and through everything that is undone on the way.

## Key results

- `AddsUp.ensures_evaluate`: what adds up holds of the net displacement if it holds of steps
- `Traversal.evaluate_depth`: the reported depth is the real one
- `Traversal.evaluate_sideways`: traversals to the side stay on their level and count siblings
-/

namespace SExprNav

variable {κ : Type} {doc : Document} {σ : Type}

namespace AddsUp

variable {D : Move → Cursor doc → Cursor doc → Prop}

theorem composes (hD : AddsUp D) : Composes fun ms => D (Move.sum ms) where
  nil := hD.zero
  append h h' := by
    rw [Move.sum_append]
    exact hD.add h h'

/-- What adds up holds of a move if it holds of the steps in the direction of the move. -/
theorem ensures_move (hD : AddsUp D) {m : Move} (hstep : ∀ p ∈ m.heading, p.1.Ensures D) :
    m.Ensures fun ms => D (Move.sum ms) := by
  intro p hp c achieved d hgo
  rw [Move.sum_cons, Move.sum_nil, Move.add_zero]
  exact hD.go (hstep p hp) hgo

/-- What adds up holds of the net displacement of an evaluation if it holds of the steps in the
    directions of the moves of the traversal. -/
theorem ensures_evaluate (hD : AddsUp D) {custom : κ → Process doc σ Bool} {t : Traversal κ}
    (hstep : ∀ m ∈ t.moves, ∀ p ∈ m.heading, p.1.Ensures D)
    (hstill : ∀ k ∈ t.conditions, k.Still custom) :
    (t.evaluate custom).Ensures fun ms => D (Move.sum ms) :=
  hD.composes.ensures_evaluate (fun m hm => hD.ensures_move (hstep m hm)) hstill

end AddsUp

/-- In a text where no comment starts a line there are no comment lines. -/
theorem Cursor.onCommentLine_eq_false
    (h : ∀ t ∈ doc.tokens, t.kind = .comment → (doc.cursorAt t.start).atLineStart = false)
    (c : Cursor doc) : c.onCommentLine = false := by
  unfold onCommentLine
  cases hcomment : c.onComment with
  | false => exact Bool.and_false _
  | true =>
    obtain ⟨t, ht, hkind, hstart⟩ := exists_token_of_onToken hcomment
    have hline := h t ht hkind
    rw [hstart, Document.cursorAt_pos] at hline
    rw [hline, Bool.false_and]

/-- A move with steps to the side heads to the side, whatever it says of depth. -/
theorem Move.heading_sideways {m : Move} (hx : m.x ≠ 0) :
    ∀ p ∈ m.heading, p.1 = .forward ∨ p.1 = .backward := by
  intro p h
  unfold heading at h
  by_cases hpos : 0 < m.x
  · rw [if_pos hpos] at h
    cases h
    exact .inl rfl
  · have hneg : m.x < 0 := by omega
    rw [if_neg hpos, if_pos hneg] at h
    cases h
    exact .inr rfl

namespace Traversal

/-- If no comment starts a line, the depth that an evaluation reports is the real one: by how much
    more lists are around the end than around the start. -/
theorem evaluate_depth (custom : κ → Process doc σ Bool) (t : Traversal κ)
    (hlines : ∀ u ∈ doc.tokens, u.kind = .comment → (doc.cursorAt u.start).atLineStart = false)
    (hstill : ∀ k ∈ t.conditions, k.Still custom) (c d : Cursor doc) (s s' : σ) (ms : List Move)
    (h : ⟨.ok (some ms), d, s'⟩ ∈ t.evaluate custom c s) :
    (Executed.displacement (some ms)).map (·.y) =
      some ((doc.nesting d.pos : Int) - doc.nesting c.pos) := by
  have hsteps := Cursor.ensures_deepens (Cursor.onCommentLine_eq_false hlines)
  have hdeepens : Cursor.Deepens (Move.sum ms) c d :=
    Cursor.addsUp_deepens.ensures_evaluate (fun _ _ p _ => hsteps p.1) hstill _ _ _ _ _ h ms rfl
  -- The depth of a cursor counts the lists found on the way down to it, and these are all.
  unfold Cursor.Deepens Cursor.depth at hdeepens
  rw [doc.depth_eq_nesting, doc.depth_eq_nesting] at hdeepens
  show some (Move.sum ms).y = _
  rw [hdeepens]
  congr 1
  omega

/-- In a list that nothing closes, with a comment behind its first expression, steps that lead too
    deep are undone before the depth is reported. -/
theorem evaluate_depth_undone_step :
    let doc := Document.ofText .lisp ['(', 'a', ' ', ';', '\n', ' ', '(', 'b', ')']
    let custom : Empty → Process doc Unit Bool := Empty.elim
    let t : Traversal Empty :=
      .maneuver [step .inward, step .forward,
        .protocol [.maneuver [step .inward, step .inward], step .inward]]
    (∀ u ∈ doc.tokens, u.kind = .comment → (doc.cursorAt u.start).atLineStart = false) ∧
    (∀ k ∈ t.conditions, k.Still custom) ∧
    ⟨.ok (some [⟨0, 1⟩, ⟨1, 0⟩, ⟨0, 1⟩]), doc.cursorAt 7, ()⟩ ∈ t.evaluate custom (doc.cursorAt 0) () ∧
    (Executed.displacement (some [⟨0, 1⟩, ⟨1, 0⟩, ⟨0, 1⟩])).map (·.y) =
      some ((doc.nesting (doc.cursorAt 7).pos : Int) - doc.nesting (doc.cursorAt 0).pos) := by
  intro doc custom t
  have hlines : ∀ u ∈ doc.tokens, u.kind = .comment →
      (doc.cursorAt u.start).atLineStart = false := by decide
  have hnone : t.conditions = [] := rfl
  have hstill : ∀ k ∈ t.conditions, k.Still custom := by
    rw [hnone]
    exact List.forall_mem_nil _
  have hyields : (t.execute Empty.elim).Yields (doc.cursorAt 0) (some [⟨0, 1⟩, ⟨1, 0⟩, ⟨0, 1⟩])
      (doc.cursorAt 7) := ⟨by decide +kernel, by decide +kernel⟩
  have hrun : ⟨.ok (some [⟨0, 1⟩, ⟨1, 0⟩, ⟨0, 1⟩]), doc.cursorAt 7, ()⟩ ∈
      t.evaluate custom (doc.cursorAt 0) () := by
    refine mem_evaluate_of_yields ?_ hyields ()
    rw [hnone]
    exact List.forall_mem_nil _
  exact ⟨hlines, hstill, hrun, evaluate_depth custom t hlines hstill _ _ _ _ _ hrun⟩

/-- A traversal whose moves all go to the side ends within the same lists, so on the same level. If
    it started where an expression of the level starts, it ends where one starts, and the net
    displacement counts how far it is from one to the other. -/
theorem evaluate_sideways (custom : κ → Process doc σ Bool) (t : Traversal κ)
    (hsideways : ∀ m ∈ t.moves, m.x ≠ 0) (hstill : ∀ k ∈ t.conditions, k.Still custom)
    (c d : Cursor doc) (s s' : σ) (ms : List Move)
    (h : ⟨.ok (some ms), d, s'⟩ ∈ t.evaluate custom c s) :
    doc.forest.innermost? d.pos = doc.forest.innermost? c.pos ∧ d.level = c.level ∧
    ∀ i : Nat, c.AtChild i → ∃ j : Nat, d.AtChild j ∧
      Executed.displacement (some ms) = some ⟨(j : Int) - i, 0⟩ := by
  have hdirections : ∀ m ∈ t.moves, ∀ p ∈ m.heading, p.1.Ensures (@Cursor.Sidesteps doc) := by
    intro m hm p hp
    cases Move.heading_sideways (hsideways m hm) p hp with
    | inl hforward => exact hforward ▸ Cursor.ensures_sidesteps_forward
    | inr hbackward => exact hbackward ▸ Cursor.ensures_sidesteps_backward
  have hsteps : Cursor.Sidesteps (Move.sum ms) c d :=
    Cursor.addsUp_sidesteps.ensures_evaluate hdirections hstill _ _ _ _ _ h ms rfl
  have hsame := hsteps.enclosing
  refine ⟨?_, ?_, fun i hi => ?_⟩
  · unfold Forest.innermost?
    rw [hsame]
  · unfold Cursor.level
    rw [Forest.level_of_enclosing_eq hsame]
  · obtain ⟨j, hj, hsum⟩ := hsteps.atChild hi
    exact ⟨j, hj, congrArg some hsum⟩

/-- In `)(a b c`, a move that is not along one axis goes to the side by two, from the first of the
    expressions in the list that nothing closes, and a step back leads to the second one. -/
theorem evaluate_sideways_unbalanced :
    let doc := Document.ofText .lisp [')', '(', 'a', ' ', 'b', ' ', 'c']
    let custom : Empty → Process doc Unit Bool := Empty.elim
    let t : Traversal Empty := .maneuver [.move ⟨2, 5⟩, .circuit (step .backward) (some 1)]
    (∀ m ∈ t.moves, m.x ≠ 0) ∧ (∀ k ∈ t.conditions, k.Still custom) ∧
    ⟨.ok (some [⟨2, 0⟩, ⟨-1, 0⟩]), doc.cursorAt 4, ()⟩ ∈ t.evaluate custom (doc.cursorAt 2) () ∧
    (doc.cursorAt 2).AtChild 0 ∧
    doc.forest.innermost? (doc.cursorAt 4).pos = doc.forest.innermost? (doc.cursorAt 2).pos ∧
    ∃ j : Nat, (doc.cursorAt 4).AtChild j ∧
      Executed.displacement (some [⟨2, 0⟩, ⟨-1, 0⟩]) = some ⟨(j : Int) - (0 : Nat), 0⟩ := by
  intro doc custom t
  have hsideways : ∀ m ∈ t.moves, m.x ≠ 0 := by decide
  have hnone : t.conditions = [] := rfl
  have hstill : ∀ k ∈ t.conditions, k.Still custom := by
    rw [hnone]
    exact List.forall_mem_nil _
  have hyields : (t.execute Empty.elim).Yields (doc.cursorAt 2) (some [⟨2, 0⟩, ⟨-1, 0⟩])
      (doc.cursorAt 4) := ⟨by decide +kernel, by decide +kernel⟩
  have hrun : ⟨.ok (some [⟨2, 0⟩, ⟨-1, 0⟩]), doc.cursorAt 4, ()⟩ ∈
      t.evaluate custom (doc.cursorAt 2) () := by
    refine mem_evaluate_of_yields ?_ hyields ()
    rw [hnone]
    exact List.forall_mem_nil _
  have hchild : (doc.cursorAt 2).AtChild 0 := by decide
  obtain ⟨hinnermost, -, hcount⟩ := evaluate_sideways custom t hsideways hstill _ _ _ _ _ hrun
  exact ⟨hsideways, hstill, hrun, hchild, hinnermost, hcount 0 hchild⟩

end Traversal

end SExprNav
