import SExprNav.Proofs.Action.Outcome
import SExprNav.Proofs.Cursor.Ends
import SExprNav.Proofs.Cursor.Repetition

/-!
# Skipping over expressions

Skipping forward leads to the ends of expressions and skipping backward to their starts, and the
level is looked up anew at each of these places. It is the same level each time. So skipping over some
expressions and then over some more is skipping over all of them, and the way back over as many
expressions ends at the start of the first one, wherever in it or in front of it the way began.

## Key results

- `Cursor.back?_startOf_next`: skipping backward from the start of an expression
- `Cursor.skipBackward_of_skipForward`: the way back over some expressions
- `Cursor.startOf_of_upcoming?`: the start of an expression is where the way back ends
- `Cursor.skip_additive_invertible`: all or nothing, one after another, and back
-/

namespace SExprNav

open Forest (Node)

/-- The search for the expression where a row is split ends there. -/
theorem Row.SplitAt.find?_stop {p : Nat} {spans pre post : List Span} {s : Span}
    (h : Row.SplitAt p spans pre s post) :
    spans.find? (fun t => decide (p < t.stop)) = some s := by
  rw [h.eq, find?_append_of_none, List.find?_cons_of_pos (by simp [h.lt_stop])]
  intro t ht
  have := h.pre_le t ht
  simp
  omega

namespace Cursor

variable {κ : Type} {doc : Document} {b c d : Cursor doc} {s t : Span} {n : Nat}

/-- The first expression of the level that ends after the cursor. -/
def upcoming? (c : Cursor doc) : Option Span := c.level.find? fun s => decide (c.pos < s.stop)

/-- What is skipped over is the first expression that ends after the cursor. Behind it is the same
    level. -/
theorem exists_span_of_ahead? (h : c.ahead? = some d) :
    ∃ s, c.upcoming? = some s ∧ d.pos = s.stop ∧ d.level = c.level := by
  cases hs : c.upcoming? with
  | none =>
    rw [ahead?_eq_none hs] at h
    exact nomatch h
  | some s =>
    cases hclosed : s.closed with
    | false =>
      rw [ahead?_of_unclosed hs hclosed] at h
      exact nomatch h
    | true =>
      obtain ⟨d', hd', hpos, hlevel⟩ := ahead?_of_closed hs hclosed
      rw [h, Option.some.injEq] at hd'
      subst hd'
      exact ⟨s, rfl, hpos, hlevel⟩

/-- From the start of an expression, skipping backward leads to the start of the one that was skipped
    over before. -/
theorem back?_startOf_next (hb : c.ahead? = some b) (hs : c.upcoming? = some s)
    (ht : b.upcoming? = some t) : (doc.startOf t).back? = some (doc.startOf s) := by
  obtain ⟨s', hs', hpos, hlevel⟩ := exists_span_of_ahead? hb
  obtain rfl : s = s' := Option.some.inj (hs.symm.trans hs')
  obtain ⟨pre, post, hsplit⟩ := Row.exists_splitAt hs
  -- Behind `s`, the next expression to end is the one after it.
  have hnext : post.head? = some t := by
    rw [← hsplit.find?_stop_next c.row, ← hpos, ← hlevel]
    exact ht
  obtain ⟨post', rfl⟩ := List.head?_eq_some_iff.mp hnext
  have hlevel_eq : c.level = (pre ++ [s]) ++ t :: post' := by
    rw [hsplit.eq]
    simp
  have hmem : t ∈ c.level := by simp [hlevel_eq]
  have hrow := c.row
  rw [hlevel_eq] at hrow
  unfold back?
  rw [Document.level_startOf hmem, Document.pos_startOf_of_level hmem, hlevel_eq,
    hrow.find?_start_before]
  simp [Document.startOf]

/-- After skipping forward, skipping backward over as many expressions leads to the start of the one
    that was skipped over first. -/
theorem skipBackward_of_skipForward (h : c.skipForward (n + 1) = some d) :
    ∃ s, c.upcoming? = some s ∧ d.skipBackward (n + 1) = some (doc.startOf s) := by
  unfold skipForward at h
  unfold skipBackward
  induction n generalizing c with
  | zero =>
    rw [times?_one] at h
    obtain ⟨s, hs, hpos, hlevel⟩ := exists_span_of_ahead? h
    have hmem : s ∈ d.level := by
      rw [hlevel]
      exact List.mem_of_find?_eq_some hs
    exact ⟨s, hs, by rw [times?_one, back?_of_stop hmem hpos]; rfl⟩
  | succ n ih =>
    obtain ⟨b, hb, hrest⟩ := times?_succ_iff.mp h
    obtain ⟨s, hs, -⟩ := exists_span_of_ahead? hb
    -- The way back leads to the expression after `s`, and one more time backward is left.
    obtain ⟨t, ht, hback⟩ := ih hrest
    exact ⟨s, hs, by rw [times?_add, hback, Option.bind_some, times?_one, back?_startOf_next hb hs ht]⟩

/-- At the start of an expression, this one is the first to end after the cursor. -/
theorem startOf_of_upcoming? (hs : c.upcoming? = some s)
    (hc : ∃ node ∈ doc.forest.nodes none, node.span.start = c.pos) : doc.startOf s = c := by
  obtain ⟨node, hnode, hstart⟩ := hc
  have hat : doc.startOf node.span = c := ext ((Document.pos_startOf_node hnode).trans hstart)
  have hon := on_startOf hnode
  rw [hat] at hon
  obtain ⟨pre, post, hsplit, -⟩ := hon.exists_splitAt
  have hspan : c.upcoming? = some node.span := hsplit.find?_stop
  rw [hs, Option.some.injEq] at hspan
  rw [hspan, hat]

/-- Skipping over `m + n` expressions, in either direction, is skipping over `m` of them and then over
    `n`, and if it is not possible the cursor stays. After skipping over some expressions forward,
    skipping backward over as many is possible. It leads to the start of the first expression of the
    level that ends after the cursor, which is the cursor itself if any expression starts there. -/
theorem skip_additive_invertible (c : Cursor doc) :
    (∀ skip ∈ [Cursor.skipForward, Cursor.skipBackward],
      (∀ m n d, (Action.tryMove (skip (m + n)) : Action κ doc Bool).Yields c true d ↔
        ∃ b, (Action.tryMove (skip m) : Action κ doc Bool).Yields c true b ∧
          (Action.tryMove (skip n) : Action κ doc Bool).Yields b true d) ∧
      ∀ n d, (Action.tryMove (skip n) : Action κ doc Bool).Yields c false d → d = c) ∧
    ∀ n d, 0 < n → (Action.tryMove (Cursor.skipForward n) : Action κ doc Bool).Yields c true d →
      ∃ s, c.level.find? (fun s => decide (c.pos < s.stop)) = some s ∧
        (doc.startOf s).pos = s.start ∧
        (Action.tryMove (Cursor.skipBackward n) : Action κ doc Bool).Yields d true (doc.startOf s) ∧
        ((∃ node ∈ doc.forest.nodes none, node.span.start = c.pos) → doc.startOf s = c) := by
  constructor
  · intro skip hskip
    have htimes : ∃ f : Cursor doc → Option (Cursor doc), skip = times? f := by
      simp only [List.mem_cons, List.not_mem_nil, or_false] at hskip
      cases hskip with
      | inl hforward => exact ⟨ahead?, hforward⟩
      | inr hbackward => exact ⟨back?, hbackward⟩
    obtain ⟨f, rfl⟩ := htimes
    constructor
    · intro m n d
      simp only [Action.yields_tryMove_true]
      rw [times?_add, Option.bind_eq_some_iff]
    · intro n d h
      exact (Action.yields_tryMove_false.mp h).2
  · intro n d hn h
    obtain ⟨n, rfl⟩ := Nat.exists_eq_succ_of_ne_zero (Nat.ne_of_gt hn)
    obtain ⟨s, hs, hback⟩ := skipBackward_of_skipForward (Action.yields_tryMove_true.mp h)
    have hpos := Document.pos_startOf_of_level (List.mem_of_find?_eq_some hs)
    exact ⟨s, hs, hpos, Action.yields_tryMove_true.mpr hback, startOf_of_upcoming? hs⟩

/-- In `x 'a (b) (c`, skipping over one expression and then over another from the quote mark leads
    behind the list, and the way back leads to the quote mark again. -/
theorem skip_additive_invertible_quoted :
    let doc := Document.ofText .lisp ['x', ' ', '\'', 'a', ' ', '(', 'b', ')', ' ', '(', 'c']
    let forward (n : Nat) : Action Unit doc Bool := Action.tryMove (Cursor.skipForward n)
    let backward (n : Nat) : Action Unit doc Bool := Action.tryMove (Cursor.skipBackward n)
    (forward (1 + 1)).Yields (doc.cursorAt 2) true (doc.cursorAt 8) ∧
      (backward (1 + 1)).Yields (doc.cursorAt 8) true (doc.cursorAt 2) := by
  intro doc forward backward
  obtain ⟨hskip, hundo⟩ := @skip_additive_invertible Unit doc (doc.cursorAt 2)
  have hfirst : (forward 1).Yields (doc.cursorAt 2) true (doc.cursorAt 4) :=
    Action.yields_tryMove_true.mpr (by decide +kernel)
  have hsecond : (forward 1).Yields (doc.cursorAt 4) true (doc.cursorAt 8) :=
    Action.yields_tryMove_true.mpr (by decide +kernel)
  have hforward : (forward (1 + 1)).Yields (doc.cursorAt 2) true (doc.cursorAt 8) :=
    ((hskip Cursor.skipForward List.mem_cons_self).1 1 1 _).mpr ⟨_, hfirst, hsecond⟩
  obtain ⟨s, -, -, hback, hsame⟩ := hundo (1 + 1) _ (by decide) hforward
  have hstart : doc.startOf s = doc.cursorAt 2 :=
    hsame ⟨⟨none, ⟨2, 4, true, false⟩⟩, by decide, by decide⟩
  exact ⟨hforward, hstart ▸ hback⟩

end Cursor

end SExprNav
