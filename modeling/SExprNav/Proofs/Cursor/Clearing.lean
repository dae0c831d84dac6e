import SExprNav.Proofs.Cursor.Correspondence
import SExprNav.Proofs.Cursor.Landing
import SExprNav.Proofs.Forest.Idle
import SExprNav.Proofs.Token.Clearing

/-!
# Idle closing delimiters turned into blanks

The steps of a cursor ask for the forest, for opening delimiters and comments, and for the ends of
lines. Documents that have these in common (`Document.Resembles`) cannot be told apart by steps. So
the closing delimiters that are idle may as well be blanks.

## Key results

- `Document.Resembles.stepsKeep`: steps lead to the same positions in documents that resemble
- `Document.Resembles.holds_eq`: the same positions are at the same boundaries
- `Document.clear_resembles`: a document with its idle closing delimiters cleared resembles it
- `Document.ignores_idle`: the tokens, the forest, the moves and the boundaries that are left
-/

namespace SExprNav

namespace Document

variable {d e doc : Document}

/-- The two documents have the same length, the same forest, the same tokens but for closing
    delimiters, and ends of lines at the same positions. -/
structure Resembles (d e : Document) : Prop where
  length : d.length = e.length
  forest : d.forest = e.forest
  tokens : d.tokens.filter (fun t => decide (t.kind ≠ .closer)) =
    e.tokens.filter (fun t => decide (t.kind ≠ .closer))
  lines : ∀ p : Nat, d.text[p]? = some '\n' ↔ e.text[p]? = some '\n'

end Document

namespace Cursor

variable {d e doc : Document}

/-- The two cursors have the same position. -/
def SamePos (c : Cursor d) (c' : Cursor e) : Prop := c.pos = c'.pos

/-- What is at a cursor, other than a closing delimiter, is told by the other tokens. -/
theorem onToken_eq_any {kind : Token.Kind} (hkind : kind ≠ .closer) (c : Cursor doc) :
    c.onToken kind = (doc.tokens.filter fun t => decide (t.kind ≠ .closer)).any fun t =>
      decide (t.kind = kind) && decide (t.start = c.pos) := by
  rw [List.any_filter]
  unfold onToken
  congr 1
  funext t
  by_cases h : t.kind = kind <;> simp [h, hkind]

/-- The next opening delimiter is told by the tokens other than closing delimiters. -/
theorem flow?_eq (c : Cursor doc) :
    c.flow? = ((doc.tokens.filter fun t => decide (t.kind ≠ .closer)).find? fun t =>
      decide (t.kind = .opener) && decide (c.pos < t.start)).map fun t => doc.cursorAt t.start := by
  rw [List.find?_filter]
  unfold flow?
  congr 2
  funext t
  by_cases h : t.kind = .opener <;> simp [h]

end Cursor

namespace Document.Resembles

open Cursor (SamePos StepsKeep)

variable {d e : Document} (h : d.Resembles e) {c : Cursor d} {c' : Cursor e} (hc : c.pos = c'.pos)

include h

/-- Cursors that are put at the same position are at the same position. -/
theorem samePos_cursorAt (p : Nat) : SamePos (d.cursorAt p) (e.cursorAt p) := by
  unfold SamePos
  rw [pos_cursorAt, pos_cursorAt, h.length]

/-- The same expression starts at the same position in both documents. -/
theorem bind_startOf? (x : Option Span) : (x.bind d.startOf?).Rel SamePos (x.bind e.startOf?) := by
  cases x with
  | none => exact .none
  | some s =>
    simp only [Option.bind_some, startOf?]
    split
    · exact .some (h.samePos_cursorAt s.start)
    · exact .none

include hc

/-- The same tokens start there, apart from closing delimiters. -/
theorem onToken_eq {kind : Token.Kind} (hkind : kind ≠ .closer) :
    c.onToken kind = c'.onToken kind := by
  rw [Cursor.onToken_eq_any hkind, Cursor.onToken_eq_any hkind, h.tokens, hc]

/-- Both or none of the cursors are on an opening delimiter. -/
theorem onOpening_eq : c.onOpening = c'.onOpening := h.onToken_eq hc (by decide)

/-- Both or none of the cursors are on a comment line. -/
theorem onCommentLine_eq : c.onCommentLine = c'.onCommentLine := by
  have hline : c.atLineStart = c'.atLineStart := by
    unfold Cursor.atLineStart
    rw [hc]
    cases c'.pos with
    | zero => rfl
    | succ p => rw [Bool.eq_iff_iff, beq_iff_eq, beq_iff_eq, h.lines]
  unfold Cursor.onCommentLine Cursor.onComment
  rw [hline, h.onToken_eq hc (by decide)]

/-- Both cursors are on the same level. -/
theorem level_eq : c.level = c'.level := by
  unfold Cursor.level
  rw [h.forest, hc]

/-- The first children start at the same position. -/
theorem firstChild? : c.firstChild?.Rel SamePos c'.firstChild? := by
  have hlevel : (d.cursorAt (c.pos + 1)).level = (e.cursorAt (c'.pos + 1)).level := by
    rw [hc]
    exact h.level_eq (h.samePos_cursorAt _)
  unfold Cursor.firstChild?
  rw [hlevel]
  exact h.bind_startOf? _

/-- Both or none of the cursors are on an empty list. -/
theorem onEmptyList_eq : c.onEmptyList = c'.onEmptyList := by
  rw [Cursor.onEmptyList_eq, Cursor.onEmptyList_eq, h.onOpening_eq hc,
    Cursor.isNone_eq (h.firstChild? hc)]

/-! ## Steps -/

/-- Steps forward lead to the same position. -/
theorem next? : c.next?.Rel SamePos c'.next? := by
  rw [Cursor.next?_eq, Cursor.next?_eq, h.level_eq hc, hc]
  exact h.bind_startOf? _

/-- Steps backward lead to the same position. -/
theorem previous? : c.previous?.Rel SamePos c'.previous? := by
  rw [Cursor.previous?_eq, Cursor.previous?_eq, h.level_eq hc, hc]
  cases c'.level.reverse.find? _ with
  | none => exact .none
  | some s => exact .some (h.samePos_cursorAt s.start)

/-- Steps outward lead to the same position. -/
theorem leave? : c.leave?.Rel SamePos c'.leave? := by
  unfold Cursor.leave? Cursor.ascend?
  rw [h.forest, hc]
  cases e.forest.innermost? c'.pos with
  | none => exact .none
  | some x => exact .some (h.samePos_cursorAt x.1.opening)

/-- Going to the next opening delimiter leads to the same position. -/
theorem flow? : c.flow?.Rel SamePos c'.flow? := by
  rw [Cursor.flow?_eq, Cursor.flow?_eq, h.tokens, hc]
  cases List.find? _ (e.tokens.filter _) with
  | none => exact .none
  | some t => exact .some (h.samePos_cursorAt t.start)

/-- Steps inward lead to the same position. -/
theorem enter? : c.enter?.Rel SamePos c'.enter? := by
  rw [Cursor.enter?_eq, Cursor.enter?_eq, h.onCommentLine_eq hc, h.onOpening_eq hc]
  split
  · exact h.flow? hc
  split
  · exact h.firstChild? hc
  · exact .none

omit hc in
/-- Steps lead to the same positions in documents that resemble. -/
theorem stepsKeep : StepsKeep (SamePos : Cursor d → Cursor e → Prop) where
  step hc dir := by
    cases dir with
    | forward => exact h.next? hc
    | backward => exact h.previous? hc
    | inward => exact h.enter? hc
    | outward => exact h.leave? hc

/-- A move achieves the same in documents that resemble, and ends at the same position. -/
theorem go_eq (dir : Direction) (n : Nat) :
    (c.go dir n).map (fun r => (r.1, r.2.pos)) = (c'.go dir n).map fun r => (r.1, r.2.pos) := by
  have hgo := h.stepsKeep.go hc dir n
  generalize c.go dir n = x, c'.go dir n = x' at hgo
  cases hgo with
  | none => rfl
  | some hr => exact congrArg some (Prod.ext hr.1 hr.2)

/-- Both or none of the cursors are at a boundary. -/
theorem holds_eq (b : Boundary) : b.holds c = b.holds c' :=
  h.stepsKeep.holds_eq hc (h.onEmptyList_eq hc) (h.onCommentLine_eq hc) b

end Document.Resembles

/-! ## Clearing -/

namespace Document

/-- The document with blanks in the place of its idle closing delimiters. -/
def clear (doc : Document) : Document :=
  ofText doc.dialect
    (Dialect.cleared (fun p => decide (p ∈ doc.idle.map (·.start))) doc.text)

variable {doc : Document}

/-- Only closing delimiters are idle. -/
theorem kind_of_mem_idle {t : Token} (h : t ∈ doc.idle) : t.kind = .closer :=
  (of_decide_eq_true (List.mem_filter.mp h).2).1

/-- An idle closing delimiter is known by its position. -/
theorem start_mem_idle_iff {t : Token} (ht : t ∈ doc.tokens) :
    t.start ∈ doc.idle.map (·.start) ↔ t ∈ doc.idle := by
  constructor
  · intro h
    obtain ⟨u, hu, hstart⟩ := List.mem_map.mp h
    obtain rfl := doc.laid_tokens.eq_of_start_eq (List.mem_filter.mp hu).1 ht hstart
    exact hu
  · exact List.mem_map_of_mem

/-- Clearing changes no length. -/
@[simp] theorem length_clear (doc : Document) : doc.clear.length = doc.length :=
  Dialect.length_cleared _ _

variable (text : List Char)

/-- Where an idle delimiter starts, there is a closing delimiter. -/
theorem closes_of_idle : ∀ p, decide (p ∈ (ofText .lisp text).idle.map (·.start)) = true →
    Dialect.Closes text p := by
  intro p hp
  obtain ⟨t, ht, hstart⟩ := List.mem_map.mp (of_decide_eq_true hp)
  exact ⟨t, (List.mem_filter.mp ht).1, kind_of_mem_idle ht, hstart⟩

/-- If the idle closing delimiters are cleared, all other tokens are left. -/
theorem tokens_clear : (ofText .lisp text).clear.tokens =
    (ofText .lisp text).tokens.filter fun t => decide (t ∉ (ofText .lisp text).idle) := by
  refine (Dialect.tokens_cleared (closes_of_idle text)).trans (List.filter_congr fun t ht => ?_)
  rw [← decide_not, decide_eq_decide, not_congr (start_mem_idle_iff ht)]

/-- Clearing leaves the forest as it is. -/
theorem forest_clear : (ofText .lisp text).clear.forest = (ofText .lisp text).forest := by
  rw [forest_eq_ofTokens, length_clear, tokens_clear, ofTokens_filter_idle]

/-- A document with its idle closing delimiters cleared resembles it. -/
theorem clear_resembles : (ofText .lisp text).Resembles (ofText .lisp text).clear where
  length := (length_clear _).symm
  forest := (forest_clear text).symm
  tokens := by
    rw [tokens_clear, List.filter_filter]
    refine List.filter_congr fun t _ => ?_
    by_cases h : t ∈ (ofText .lisp text).idle
    · simp [h, kind_of_mem_idle h]
    · simp [h]
  lines p := (Dialect.cleared_eq_newline_iff (closes_of_idle text) p).symm

/-- Closing delimiters that close nothing are ignored. Turn those into blanks that are met when no
    list is open, and before which the last token that is no comment is no quote mark. Then the
    tokens are those of the text without these; the forest is the same; and from every position each
    move achieves the same and ends at the same position, and the boundaries are the same. -/
theorem ignores_idle (text : List Char) :
    (ofText .lisp text).clear.tokens =
      (ofText .lisp text).tokens.filter (fun t => decide (t ∉ (ofText .lisp text).idle)) ∧
    (ofText .lisp text).clear.forest = (ofText .lisp text).forest ∧
    ∀ c : Cursor (ofText .lisp text),
      let c' := (ofText .lisp text).clear.cursorAt c.pos
      c'.pos = c.pos ∧
      (∀ dir n, (c'.go dir n).map (fun r => (r.1, r.2.pos)) =
        (c.go dir n).map fun r => (r.1, r.2.pos)) ∧
      ∀ b : Boundary, b.holds c' = b.holds c := by
  refine ⟨tokens_clear text, forest_clear text, fun c => ?_⟩
  intro c'
  have hpos : c'.pos = c.pos := by
    have hle := c.pos_le
    rw [pos_cursorAt, length_clear, Nat.min_eq_left hle]
  have hclear := clear_resembles text
  exact ⟨hpos, fun dir n => (hclear.go_eq hpos.symm dir n).symm,
    fun b => (hclear.holds_eq hpos.symm b).symm⟩

/-- In `a) ')(b)`, the first delimiter is idle; the second one keeps the quote mark from the list. -/
example : (ofText .lisp ['a', ')', ' ', '\x27', ')', '(', 'b', ')']).clear.text =
    ['a', ' ', ' ', '\x27', ')', '(', 'b', ')'] := by decide

end Document

end SExprNav
