import SExprNav.Proofs.Cursor.Abreast
import SExprNav.Proofs.Traversal.Alike
import SExprNav.Proofs.Traversal.Rollback

/-!
# Formatting does not matter

Blanks, line breaks, comments and the choice of delimiters change the positions in a text, but not
what a traversal does: executed in two documents with the same kinds of tokens, from the starts of
tokens with the same index, it makes the same moves and ends at tokens with the same index. Its
conditions may be any boolean combinations of boundaries. The documents may be unbalanced.

## Key results

- `Formula.holds_eq`: a formula does not tell cursors abreast from one another
- `Traversal.not_faults_of_formula`: executions with formulas for conditions end in no fault
- `Traversal.execute_same_kinds`: what a traversal does depends on the kinds of tokens only
-/

namespace SExprNav

/-- A boolean combination of boundaries. -/
inductive Formula where
  /-- Holds everywhere. -/
  | always
  /-- The cursor is at a boundary. -/
  | boundary (b : Boundary)
  | not (φ : Formula)
  | and (φ ψ : Formula)
  | or (φ ψ : Formula)
deriving DecidableEq, Repr

namespace Formula

/-- Whether a formula holds at a cursor. -/
def holds {doc : Document} : Formula → Cursor doc → Bool
  | .always, _ => true
  | .boundary b, c => b.holds c
  | .not φ, c => !φ.holds c
  | .and φ ψ, c => φ.holds c && ψ.holds c
  | .or φ ψ, c => φ.holds c || ψ.holds c

/-- The meaning of conditions that stand for formulas: asking never moves the cursor. -/
def meaning {κ : Type} {doc : Document} (formula : κ → Formula) (k : κ) : Action κ doc Bool :=
  Action.ask (formula k).holds

/-- A formula holds at both of two cursors abreast, or at none. -/
theorem holds_eq {d e : Document} (h : d.SameKinds e) {c : Cursor d} {c' : Cursor e}
    (hc : c.Abreast c') (φ : Formula) : φ.holds c = φ.holds c' := by
  induction φ with
  | always => rfl
  | boundary b => exact hc.holds_eq h b
  | not φ ih => rw [holds, holds, ih]
  | and φ ψ ihφ ihψ => rw [holds, holds, ihφ, ihψ]
  | or φ ψ ihφ ihψ => rw [holds, holds, ihφ, ihψ]

end Formula

namespace Traversal

variable {κ : Type} {d e doc : Document}

/-- An execution whose conditions stand for formulas ends in no fault. -/
theorem not_faults_of_formula (formula : κ → Formula) (t : Traversal κ) (c : Cursor doc) (f : Fault) :
    ¬ (t.execute (Formula.meaning formula)).Faults c f := by
  intro h
  obtain ⟨k, b, -, hk⟩ := exists_custom_of_faults h
  exact Action.not_faults_ask hk

/-- Conditions that stand for formulas are asked alike at cursors abreast. -/
theorem alike_test (h : d.SameKinds e) (formula : κ → Formula) (k : Condition κ) :
    Action.Alike (Cursor.Abreast : Cursor d → Cursor e → Prop) (k.test (Formula.meaning formula))
      (k.test (Formula.meaning formula)) := by
  cases k with
  | always => exact Action.Alike.pure true
  | holds b => exact Action.Alike.ask fun _ _ hc => hc.holds_eq h b
  | fails b => exact Action.Alike.ask fun _ _ hc => congrArg Bool.not (hc.holds_eq h b)
  | custom k => exact Action.Alike.ask fun _ _ hc => Formula.holds_eq h hc (formula k)

/-- What a traversal does depends on the kinds of tokens only. In two documents that have the same
    kinds of tokens, comments apart, it is executed from the starts of tokens with the same index.
    Then it makes the same moves in both, or fails in both, and it ends at the starts of tokens with
    the same index. -/
theorem execute_same_kinds (formula : κ → Formula) (t : Traversal κ) (d e : Document)
    (h : d.SameKinds e) (k : Nat) (c : Cursor d) (c' : Cursor e)
    (hc : d.landmark? k = some c.pos) (hc' : e.landmark? k = some c'.pos) :
    let r := t.execute (Formula.meaning formula) c
    let r' := t.execute (Formula.meaning formula) c'
    ∃ executed j, r.answer = .ok executed ∧ r'.answer = .ok executed ∧
      d.landmark? j = some r.cursor.pos ∧ e.landmark? j = some r'.cursor.pos := by
  intro r r'
  have hgo : ∀ dir n, Action.Alike (Cursor.Abreast : Cursor d → Cursor e → Prop)
      (Action.go dir n : Action κ d (Option Move)) (Action.go dir n) :=
    fun dir n => Action.Alike.go fun _ _ hc => hc.go h dir n
  have hrun : r.Alike Cursor.Abreast r' :=
    alike_execute Cursor.abreast_biUnique hgo (alike_test h formula) t c c' ⟨k, hc, hc'⟩
  obtain ⟨j, hj, hj'⟩ := hrun.cursor
  cases hanswer : r.answer with
  | error f => exact absurd hanswer (not_faults_of_formula formula t c f)
  | ok executed => exact ⟨executed, j, rfl, hrun.answer ▸ hanswer, hj, hj'⟩

/-- In `(a b)`, a circuit goes forward from `a` as long as it is not on the last expression; so it
    does in a text with other delimiters and with a comment between the two. -/
theorem execute_same_kinds_comment_between :
    let d := Document.ofText .lisp ['(', 'a', ' ', 'b', ')']
    let e := Document.ofText ⟨['<'], ['>'], ['%']⟩
      ['<', 'a', ' ', '%', ' ', 'c', '\n', '\n', 'b', 'b', '>']
    let t : Traversal Unit := .circuit (.precaution (.step .forward) (.custom ()) .always) none
    let formula : Unit → Formula := fun _ => .not (.boundary .last)
    d.SameKinds e ∧ d.landmark? 1 = some 1 ∧ e.landmark? 1 = some 1 ∧
    (t.execute (Formula.meaning formula) (d.cursorAt 1)).answer = .ok (some [⟨1, 0⟩]) ∧
    (t.execute (Formula.meaning formula) (e.cursorAt 1)).answer = .ok (some [⟨1, 0⟩]) := by
  intro d e t formula
  have hkinds : d.SameKinds e := by decide
  have hd : d.landmark? 1 = some (d.cursorAt 1).pos := by decide
  have he : e.landmark? 1 = some (e.cursorAt 1).pos := by decide
  have hrun : (t.execute (Formula.meaning formula) (d.cursorAt 1)).answer =
      .ok (some [⟨1, 0⟩]) := by decide +kernel
  obtain ⟨executed, j, hanswer, hanswer', -, -⟩ :=
    execute_same_kinds formula t d e hkinds 1 (d.cursorAt 1) (e.cursorAt 1) hd he
  have hexecuted : executed = some [⟨1, 0⟩] := Except.ok.inj (hanswer.symm.trans hrun)
  exact ⟨hkinds, hd, he, hrun, hexecuted ▸ hanswer'⟩

end Traversal

end SExprNav
