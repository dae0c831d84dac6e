import SExprNav.Cursor.Boundary
import SExprNav.Proofs.Forest.Level
import SExprNav.Proofs.Forest.Reading

/-!
# Where steps lead

A step forward skips over expressions and back again, and a step inward does so from behind an
opening delimiter. Where the two lead can be said without skipping: to the first expression of the
level that starts after the cursor, and to the first child of the list, unless nothing closes them.

## Key results

- `Cursor.row`: how the expressions of a level lie
- `Cursor.next?_eq`: where a step forward leads
- `Cursor.onEmptyList_eq`, `Cursor.enter?_eq`: where a step inward leads, and when it does not
- `Cursor.previous?_eq`: where a step backward leads
-/

namespace SExprNav

/-- The expressions lie one after another in a text with `length` characters, and only the last one
    may be a list that nothing closes. -/
structure Row (length : Nat) (spans : List Span) : Prop where
  nonempty : ∀ s ∈ spans, s.start < s.stop
  stop_le : ∀ s ∈ spans, s.stop ≤ length
  apart : spans.Pairwise fun s t => s.stop ≤ t.start
  last : ∀ s ∈ spans, s.closed = false → spans.getLast? = some s

section Search

variable {α : Type} {p : α → Bool} {l m : List α}

/-- A search passes over what it is not for. -/
theorem find?_append_of_none (h : ∀ a ∈ l, ¬ p a = true) :
    (l ++ m).find? p = m.find? p := by
  rw [List.find?_append, List.find?_eq_none.mpr h]
  rfl

/-- A search ends at once if all is what it is for. -/
theorem find?_eq_head?_of_forall (h : ∀ a ∈ l, p a = true) : l.find? p = l.head? := by
  cases l with
  | nil => rfl
  | cons a l => rw [List.find?_cons_of_pos (h a List.mem_cons_self)]; rfl

end Search

namespace Row

variable {length p : Nat} {spans pre post : List Span} {s : Span}

theorem mem_middle : s ∈ pre ++ s :: post := by simp

/-- What comes before an expression ends before it starts. -/
theorem before (h : Row length (pre ++ s :: post)) : ∀ t ∈ pre, t.stop ≤ s.start := by
  intro t ht
  exact (List.pairwise_append.mp h.apart).2.2 t ht s List.mem_cons_self

/-- What comes after an expression starts after its end. -/
theorem after (h : Row length (pre ++ s :: post)) : ∀ t ∈ post, s.stop ≤ t.start :=
  (List.pairwise_cons.mp (List.pairwise_append.mp h.apart).2.1).1

/-- Nothing comes after a list that nothing closes. -/
theorem post_eq_nil (h : Row length (pre ++ s :: post)) (hopen : s.closed = false) :
    post = [] := by
  have hlast := h.last s mem_middle hopen
  cases post with
  | nil => rfl
  | cons t post =>
    -- The last expression is among those that start after the end of this one.
    have hmem : s ∈ t :: post := by
      rw [List.getLast?_append, List.getLast?_cons_cons] at hlast
      cases hl : (t :: post).getLast? with
      | none => exact nomatch List.getLast?_eq_none_iff.mp hl
      | some u =>
        rw [hl] at hlast
        cases hlast
        exact List.mem_of_getLast? hl
    have hstart := h.after s hmem
    have hstop := h.nonempty s mem_middle
    omega

/-- The row up to the first expression `s` that ends after the position `p`, and from there on. -/
structure SplitAt (p : Nat) (spans pre : List Span) (s : Span) (post : List Span) : Prop where
  eq : spans = pre ++ s :: post
  pre_le : ∀ t ∈ pre, t.stop ≤ p
  lt_stop : p < s.stop

theorem exists_splitAt (h : spans.find? (fun t => decide (p < t.stop)) = some s) :
    ∃ pre post, SplitAt p spans pre s post := by
  obtain ⟨hstop, pre, post, hL, hpre⟩ := List.find?_eq_some_iff_append.mp h
  refine ⟨pre, post, hL, fun t ht => ?_, of_decide_eq_true hstop⟩
  have := hpre t ht
  simpa using this

/-- Without an expression that ends after a position there is none that starts after it. -/
theorem find?_start_eq_none (h : Row length spans)
    (hnone : spans.find? (fun t => decide (p < t.stop)) = none) :
    spans.find? (fun t => decide (p < t.start)) = none := by
  rw [List.find?_eq_none] at hnone ⊢
  intro t ht
  have hstop := hnone t ht
  have hne := h.nonempty t ht
  simp only [decide_eq_true_eq] at hstop ⊢
  omega

namespace SplitAt

theorem mem (h : SplitAt p spans pre s post) : s ∈ spans := by
  rw [h.eq]
  exact mem_middle

variable (h : SplitAt p spans pre s post) (hrow : Row length spans)

include h hrow

theorem pre_start_le : ∀ t ∈ pre, t.start ≤ p := by
  intro t ht
  have hstop := h.pre_le t ht
  have hne := hrow.nonempty t (by simp [h.eq, ht])
  omega

theorem le_post_start : ∀ t ∈ post, s.stop ≤ t.start := by
  have := hrow
  rw [h.eq] at this
  exact this.after

/-- If the position is inside `s`, then `s` is the only expression that it is inside. -/
theorem any_inside :
    (spans.any fun t => decide (t.start ≤ p) && decide (p < t.stop)) = decide (s.start ≤ p) := by
  rw [h.eq, List.any_append, List.any_cons, List.any_eq_false.mpr, List.any_eq_false.mpr]
  · simp [h.lt_stop]
  · intro t ht
    have hstart := h.le_post_start hrow t ht
    have hstop := h.lt_stop
    simp
    omega
  · intro t ht
    have := h.pre_le t ht
    simp
    omega

/-- Before `s`, the next expression to start is `s`. -/
theorem find?_start_of_lt (hlt : p < s.start) :
    spans.find? (fun t => decide (p < t.start)) = some s := by
  rw [h.eq, find?_append_of_none, List.find?_cons_of_pos (by simp [hlt])]
  intro t ht
  have := h.pre_start_le hrow t ht
  simp
  omega

/-- Inside `s`, the next expression to start is the one after `s`. -/
theorem find?_start_of_le (hle : s.start ≤ p) :
    spans.find? (fun t => decide (p < t.start)) = post.head? := by
  rw [h.eq, find?_append_of_none, List.find?_cons_of_neg, find?_eq_head?_of_forall]
  · intro t ht
    have hstart := h.le_post_start hrow t ht
    have hstop := h.lt_stop
    simp
    omega
  · simp
    omega
  · intro t ht
    have := h.pre_start_le hrow t ht
    simp
    omega

/-- After `s`, the next expression to end is the one after `s`. -/
theorem find?_stop_next : spans.find? (fun t => decide (s.stop < t.stop)) = post.head? := by
  rw [h.eq, find?_append_of_none, List.find?_cons_of_neg (by simp), find?_eq_head?_of_forall]
  · intro t ht
    have hstart := h.le_post_start hrow t ht
    have hne := hrow.nonempty t (by simp [h.eq, ht])
    simp
    omega
  · intro t ht
    have hpre := h.pre_le t ht
    have hstop := h.lt_stop
    simp
    omega

end SplitAt

end Row

/-- The start of an expression that can be skipped over. -/
def Document.startOf? (doc : Document) (s : Span) : Option (Cursor doc) :=
  if s.closed then some (doc.cursorAt s.start) else none

namespace Cursor

variable {doc : Document} {c d : Cursor doc} {s : Span}

/-- How the expressions of a level lie. -/
theorem row (c : Cursor doc) : Row doc.length c.level := by
  obtain ⟨lo, hi, h, hhi, -⟩ := doc.placed_forest.level (doc.forest.level_mem_levels c.pos)
  constructor
  case nonempty => exact fun s hs => (h.spans_bounds s hs).2.1
  case stop_le => exact fun s hs => Nat.le_trans (h.spans_bounds s hs).2.2 hhi
  case apart => exact h.spans_pairwise
  case last => exact fun s hs hopen => (h.last_of_unclosed hs hopen).1

/-! ## Skipping -/

theorem skipForward_one (c : Cursor doc) : c.skipForward 1 = c.ahead? := by
  unfold skipForward times?
  cases c.ahead? <;> rfl

theorem skipForward_two (c : Cursor doc) : c.skipForward 2 = c.ahead?.bind ahead? := by
  unfold skipForward times?
  cases c.ahead? with
  | none => rfl
  | some d => exact skipForward_one d

/-- Where a step backward leads: to the last expression of the level that starts before the
    cursor. -/
theorem previous?_eq (c : Cursor doc) : c.previous? =
    (c.level.reverse.find? fun s => decide (s.start < c.pos)).map fun s => doc.cursorAt s.start := by
  unfold previous? skipBackward times?
  show _ = c.back?
  cases c.back? <;> rfl

theorem ahead?_eq_none (h : c.level.find? (fun s => decide (c.pos < s.stop)) = none) :
    c.ahead? = none := by
  unfold ahead?
  rw [h]

theorem ahead?_of_unclosed (h : c.level.find? (fun s => decide (c.pos < s.stop)) = some s)
    (hopen : s.closed = false) : c.ahead? = none := by
  unfold ahead?
  rw [h]
  simp [hopen]

/-- Skipping over an expression leads to its end, which has the level of the expression. -/
theorem ahead?_of_closed (h : c.level.find? (fun s => decide (c.pos < s.stop)) = some s)
    (hclosed : s.closed = true) :
    ∃ d, c.ahead? = some d ∧ d.pos = s.stop ∧ d.level = c.level := by
  have hmem : s ∈ c.level := List.mem_of_find?_eq_some h
  have hpos : (doc.cursorAt s.stop).pos = s.stop := Nat.min_eq_left (c.row.stop_le s hmem)
  refine ⟨doc.cursorAt s.stop, ?_, hpos, ?_⟩
  · unfold ahead?
    rw [h]
    simp [hclosed]
  · unfold level
    rw [hpos, doc.placed_forest.level_stop hmem hclosed]

/-- From the end of an expression, skipping back leads to its start. -/
theorem back?_of_stop (hs : s ∈ d.level) (hd : d.pos = s.stop) :
    d.back? = some (doc.cursorAt s.start) := by
  have hfind : d.level.reverse.find? (fun t => decide (t.start < d.pos)) = some s := by
    -- The expressions after `s` start at its end or later, so the search backward passes them.
    obtain ⟨pre, post, hL⟩ := List.append_of_mem hs
    have hrow := d.row
    rw [hL] at hrow ⊢
    have hne := hrow.nonempty s Row.mem_middle
    rw [List.reverse_append, List.reverse_cons, List.append_assoc, find?_append_of_none]
    · simp [hd, hne]
    · intro t ht
      have := hrow.after t (List.mem_reverse.mp ht)
      simp only [decide_eq_true_eq]
      omega
  unfold back?
  rw [hfind]
  rfl

theorem backUp_of_stop (hs : s ∈ d.level) (hd : d.pos = s.stop) :
    d.backUp = doc.cursorAt s.start := by
  unfold backUp skipBackward times?
  rw [back?_of_stop hs hd]
  rfl

/-- Skipping over an expression and back leads to its start. -/
theorem backUp_ahead?_of_closed (h : c.level.find? (fun s => decide (c.pos < s.stop)) = some s)
    (hclosed : s.closed = true) : c.ahead?.map backUp = some (doc.cursorAt s.start) := by
  obtain ⟨d, hahead, hd, hlevel⟩ := ahead?_of_closed h hclosed
  have hmem : s ∈ d.level := by
    rw [hlevel]
    exact List.mem_of_find?_eq_some h
  rw [hahead, Option.map_some, backUp_of_stop hmem hd]

/-- Skipping over the first expression that ends after the cursor and back leads to its start, unless
    nothing closes it. -/
theorem backUp_ahead? (c : Cursor doc) : c.ahead?.map backUp =
    (c.level.find? fun s => decide (c.pos < s.stop)).bind doc.startOf? := by
  cases h : c.level.find? (fun s => decide (c.pos < s.stop)) with
  | none => rw [ahead?_eq_none h]; rfl
  | some s =>
    cases hclosed : s.closed with
    | false =>
      rw [ahead?_of_unclosed h hclosed]
      simp [Document.startOf?, hclosed]
    | true =>
      rw [backUp_ahead?_of_closed h hclosed]
      simp [Document.startOf?, hclosed]

/-! ## Steps forward -/

theorem onExpression_eq {pre post : List Span} (h : Row.SplitAt c.pos c.level pre s post) :
    c.onExpression = decide (s.start ≤ c.pos) := h.any_inside c.row

/-- Without an expression that can be skipped over there is no step forward. -/
theorem next?_of_ahead?_eq_none (h : c.ahead? = none) : c.next? = none := by
  unfold next? pastNext?
  rw [skipForward_two, skipForward_one, h]
  simp

theorem pos_of_startOf? (hs : s ∈ c.level) (h : doc.startOf? s = some d) : d.pos = s.start := by
  have hstop := c.row.stop_le s hs
  have hne := c.row.nonempty s hs
  unfold Document.startOf? at h
  split at h
  · cases h
    exact Nat.min_eq_left (by omega)
  · exact nomatch h

/-- Between two expressions, a step forward leads to the start of the second one. -/
theorem next?_of_not_onExpression (h : c.onExpression = false) :
    c.next? = (c.ahead?.map backUp).filter fun d => decide (c.pos < d.pos) := by
  unfold next? pastNext?
  rw [h, skipForward_one]
  rfl

/-- On an expression, a step forward leads to the start of the one after it, if that one can be
    skipped over. -/
theorem next?_of_onExpression {pre post : List Span} (h : Row.SplitAt c.pos c.level pre s post)
    (hfind : c.level.find? (fun s => decide (c.pos < s.stop)) = some s) (hle : s.start ≤ c.pos) :
    c.next? = post.head?.bind doc.startOf? := by
  have hrow := c.row
  have hon : c.onExpression = true := by
    rw [onExpression_eq h, decide_eq_true hle]
  cases hclosed : s.closed with
  | false =>
    have hpost : post = [] := by
      rw [h.eq] at hrow
      exact hrow.post_eq_nil hclosed
    rw [next?_of_ahead?_eq_none (ahead?_of_unclosed hfind hclosed), hpost]
    rfl
  | true =>
    obtain ⟨d, hahead, hd, hlevel⟩ := ahead?_of_closed hfind hclosed
    have hstart := c.row.stop_le s (h.mem)
    have hback : d.backUp = doc.cursorAt s.start :=
      backUp_of_stop (by rw [hlevel]; exact h.mem) hd
    have hsecond : d.ahead?.map backUp = post.head?.bind doc.startOf? := by
      rw [backUp_ahead?, hlevel, hd, h.find?_stop_next hrow]
    cases hahead' : d.ahead? with
    | none =>
      -- What is skipped over is the expression that the cursor is on, which leads back.
      rw [hahead'] at hsecond
      unfold next? pastNext?
      rw [hon, skipForward_two, skipForward_one, hahead, ← hsecond]
      simp [hahead', hback]
      omega
    | some d' =>
      rw [hahead'] at hsecond
      -- The second expression starts after the first one ends, and so after the cursor.
      have hgt : c.pos < d'.backUp.pos := by
        obtain ⟨t, ht, hstart⟩ := Option.bind_eq_some_iff.mp hsecond.symm
        have hmem : t ∈ post := List.mem_of_mem_head? ht
        have hpos := pos_of_startOf? (by rw [h.eq]; simp [hmem]) hstart
        have hafter := h.le_post_start hrow t hmem
        have hstop := h.lt_stop
        omega
      unfold next? pastNext?
      rw [hon, skipForward_two, hahead, ← hsecond]
      simp [hahead', hgt]

/-- Where a step forward leads: to the first expression of the level that starts after the cursor,
    unless nothing closes that one. -/
theorem next?_eq (c : Cursor doc) :
    c.next? = (c.level.find? fun s => decide (c.pos < s.start)).bind doc.startOf? := by
  have hrow := c.row
  cases hfind : c.level.find? (fun s => decide (c.pos < s.stop)) with
  | none =>
    rw [hrow.find?_start_eq_none hfind, next?_of_ahead?_eq_none (ahead?_eq_none hfind)]
    rfl
  | some s =>
    -- The cursor is on the first expression that ends after it, or before that one.
    obtain ⟨pre, post, hsplit⟩ := Row.exists_splitAt hfind
    by_cases hle : s.start ≤ c.pos
    · rw [next?_of_onExpression hsplit hfind hle, hsplit.find?_start_of_le hrow hle]
    · have hlt : c.pos < s.start := Nat.lt_of_not_le hle
      have hon : c.onExpression = false := by
        rw [onExpression_eq hsplit, decide_eq_false hle]
      rw [next?_of_not_onExpression hon, backUp_ahead?, hfind, hsplit.find?_start_of_lt hrow hlt,
        Option.bind_some]
      cases hd : doc.startOf? s with
      | none => rfl
      | some d => simp [pos_of_startOf? hsplit.mem hd, hlt]

/-! ## Steps inward -/

/-- The token that makes the answer to a question about tokens. -/
theorem exists_token_of_onToken {kind : Token.Kind} (h : c.onToken kind = true) :
    ∃ t ∈ doc.tokens, t.kind = kind ∧ t.start = c.pos := by
  unfold onToken at h
  simpa using h

/-- An opening delimiter at the cursor is that of a list. -/
theorem opening_of_onOpening (h : c.onOpening = true) :
    c.pos ∈ doc.forest.extents.map (·.opening) := by
  obtain ⟨t, ht, hkind, hstart⟩ := exists_token_of_onToken h
  rw [doc.forest_eq_ofTokens, Forest.openings_ofTokens]
  exact List.mem_map.mpr ⟨t, List.mem_filter.mpr ⟨ht, decide_eq_true hkind⟩, hstart⟩

theorem pos_inside (h : c.onOpening = true) : (doc.cursorAt (c.pos + 1)).pos = c.pos + 1 := by
  obtain ⟨t, ht, -, hstart⟩ := exists_token_of_onToken h
  have hb := doc.laid_tokens.bounds t ht
  exact Nat.min_eq_left (by omega)

/-- The expressions inside a list start after its opening delimiter. -/
theorem lt_start_of_inside (h : c.onOpening = true) :
    ∀ s ∈ (doc.cursorAt (c.pos + 1)).level, c.pos < s.start := by
  obtain ⟨closing, hplaced⟩ := doc.placed_forest.level_opening_succ (opening_of_onOpening h)
  intro s hs
  unfold level at hs
  rw [pos_inside h] at hs
  exact (hplaced.spans_bounds s hs).1

/-- The start of the first expression inside the list at the cursor, unless nothing closes it. -/
def firstChild? (c : Cursor doc) : Option (Cursor doc) :=
  (doc.cursorAt (c.pos + 1)).level.head?.bind doc.startOf?

/-- Behind an opening delimiter, the first expression to end is the first one inside the list. -/
theorem find?_stop_inside (h : c.onOpening = true) :
    (doc.cursorAt (c.pos + 1)).level.find?
        (fun s => decide ((doc.cursorAt (c.pos + 1)).pos < s.stop)) =
      (doc.cursorAt (c.pos + 1)).level.head? := by
  apply find?_eq_head?_of_forall
  intro s hs
  have hstart := lt_start_of_inside h s hs
  have hne := (row _).nonempty s hs
  rw [pos_inside h]
  exact decide_eq_true (by omega)

theorem backUp_ahead?_inside (h : c.onOpening = true) :
    (doc.cursorAt (c.pos + 1)).ahead?.map backUp = c.firstChild? := by
  rw [backUp_ahead?, find?_stop_inside h]
  rfl

/-- A list is empty if there is no first expression inside it, or nothing closes that one. -/
theorem onEmptyList_eq (c : Cursor doc) :
    c.onEmptyList = (c.onOpening && c.firstChild?.isNone) := by
  unfold onEmptyList
  cases h : c.onOpening with
  | false => rfl
  | true =>
    rw [skipForward_one, ← backUp_ahead?_inside h, Option.isNone_map]

/-- Where a step inward leads: to the first expression inside the list, unless nothing closes that
    one. -/
theorem enter?_eq (c : Cursor doc) :
    c.enter? =
      if c.onCommentLine then c.flow? else if c.onOpening then c.firstChild? else none := by
  unfold enter?
  rw [onEmptyList_eq]
  cases hopening : c.onOpening with
  | false => simp
  | true =>
    have hback := backUp_ahead?_inside hopening
    cases hfirst : c.firstChild? with
    | none => simp
    | some d =>
      rw [hfirst] at hback
      obtain ⟨e, hahead, he⟩ := Option.map_eq_some_iff.mp hback
      have hskip : (((doc.cursorAt (c.pos + 1)).skipForward 1).getD
          (doc.cursorAt (c.pos + 1))).backUp = d := by
        rw [skipForward_one, hahead]
        exact he
      have hon : (doc.cursorAt (c.pos + 1)).onExpression = true → doc.cursorAt (c.pos + 1) = d := by
        intro hon
        -- The cursor is at the first expression already.
        obtain ⟨s, hs, hd⟩ := Option.bind_eq_some_iff.mp hfirst
        have hmem := List.mem_of_mem_head? hs
        obtain ⟨pre, post, hsplit⟩ := Row.exists_splitAt ((find?_stop_inside hopening).trans hs)
        rw [onExpression_eq hsplit, pos_inside hopening] at hon
        have hle := of_decide_eq_true hon
        have hlt := lt_start_of_inside hopening s hmem
        apply ext
        rw [pos_inside hopening, pos_of_startOf? hmem hd]
        omega
      simp only [Bool.not_true, Option.isNone_some, Bool.and_false, Bool.or_self, if_true,
        Bool.false_eq_true, if_false]
      split
      · rfl
      · split
        · rename_i h
          rw [hon h]
        · rw [hskip]

/-- A step inward that is possible leads from an opening delimiter to the first expression inside. -/
theorem firstChild?_of_enter? (hline : c.onCommentLine = false) (h : c.enter? = some d) :
    c.onOpening = true ∧ c.firstChild? = some d := by
  rw [enter?_eq, hline] at h
  cases hopening : c.onOpening with
  | false => simp [hopening] at h
  | true => exact ⟨rfl, by simpa [hopening] using h⟩

/-! ## Moves -/

/-- A move of one step is a step. -/
theorem go_one (c : Cursor doc) (dir : Direction) :
    c.go dir 1 = (step? dir c).map fun d => (dir.move 1, d) := by
  unfold go repeated
  cases step? dir c <;> rfl

end Cursor

end SExprNav
