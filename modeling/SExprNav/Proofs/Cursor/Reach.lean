import SExprNav.Proofs.Cursor.Abreast
import SExprNav.Proofs.Cursor.Advance
import SExprNav.Proofs.Forest.Nesting

/-!
# How far a cursor reaches

A cursor on an opening delimiter reaches to where its list closes, and every other cursor reaches no
farther than it stands. Steps are told apart by what they do to the reach: a step outward does not
shrink it, a step forward leads beyond it, and a step backward or to the last child leads to a
cursor that reaches less far. This holds in unbalanced texts and with quote marks before lists; only
on comment lines, from where a step inward leads anywhere in the text, it does not.

## Key results

- `Cursor.reach_lt_of_next?`: a step forward leads beyond the reach of the cursor
- `Cursor.reach_le_of_leave?`: a step outward leads to a cursor that reaches at least as far
- `Cursor.reach_lt_of_previous?`: a step backward leads to a cursor that does not reach back
- `Cursor.reach_lt_of_lastChild?`: so does a step to the last child
- `Cursor.AtStart.not_onCommentLine`: no expression starts with a comment
- `Cursor.enter?_of_opening`: where a step inward leads from an opening delimiter
-/

namespace SExprNav

namespace Row

variable {length : Nat} {spans : List Span} {s t : Span}

/-- Of two expressions of a level, the one that starts first ends before the other one starts. -/
theorem stop_le_of_start_lt (h : Row length spans) (hs : s ∈ spans) (ht : t ∈ spans)
    (hlt : s.start < t.start) : s.stop ≤ t.start := by
  obtain ⟨pre, post, rfl⟩ := List.append_of_mem hs
  simp only [List.mem_append, List.mem_cons] at ht
  rcases ht with ht | rfl | ht
  · have hbefore := h.before t ht
    have hne := h.nonempty t (by simp [ht])
    omega
  · omega
  · exact h.after t ht

/-- Expressions of a level do not overlap. -/
theorem eq_of_overlap (h : Row length spans) (hs : s ∈ spans) (ht : t ∈ spans)
    (hle : t.start ≤ s.start) (hlt : s.start < t.stop) : s = t := by
  obtain ⟨pre, post, rfl⟩ := List.append_of_mem ht
  simp only [List.mem_append, List.mem_cons] at hs
  rcases hs with hs | rfl | hs
  · have hbefore := h.before s hs
    have hne := h.nonempty s (by simp [hs])
    omega
  · rfl
  · have hafter := h.after s hs
    omega

end Row

namespace Cursor

variable {doc : Document} {c d : Cursor doc} {s : Span} {e : Extent}

/-! ## Expressions and lists at a cursor -/

/-- The start of an expression has the level of the expression. -/
theorem level_of_start (hs : s ∈ c.level) (hd : d.pos = s.start) : d.level = c.level := by
  unfold level at hs ⊢
  rw [hd, Forest.level_of_enclosing_eq (doc.placed_forest.enclosing_of_start hs)]

/-- A list is an expression of the level of its opening delimiter. -/
theorem span_mem_level (he : e ∈ doc.forest.extents) (hc : e.opening = c.pos) :
    e.span ∈ c.level := by
  have := doc.placed_forest.span_mem_level he
  unfold level
  rwa [← hc]

/-- If an expression starts with an opening delimiter, it is the list of that delimiter. -/
theorem eq_span_of_opening (hs : s ∈ c.level) (he : e ∈ doc.forest.extents)
    (hopening : e.opening = s.start) : s = e.span := by
  have hstop := c.row.stop_le s hs
  have hne := c.row.nonempty s hs
  have hd : (doc.cursorAt s.start).pos = s.start := Nat.min_eq_left (by omega)
  -- The list is of the same level, and expressions of one level do not overlap.
  have hmem : e.span ∈ c.level := by
    rw [← level_of_start hs hd]
    exact span_mem_level he (hopening.trans hd.symm)
  have hb := doc.placed_forest.extents_bounds e he
  apply c.row.eq_of_overlap hs hmem
  · show e.start ≤ s.start
    omega
  · show s.start < e.stop
    omega

theorem pos_opening {x : Forest.Entry} (hx : x ∈ doc.forest.lists) :
    (doc.cursorAt x.extent.opening).pos = x.extent.opening := by
  have hb := doc.placed_forest.extents_bounds _ (Forest.mem_extents_of_mem_entries hx)
  exact Nat.min_eq_left (by omega)

/-- The opening delimiter of a list is one of the text. -/
theorem onOpening_of_opening (he : e ∈ doc.forest.extents) (hc : e.opening = c.pos) :
    c.onOpening = true := by
  have hmem : e.opening ∈ doc.forest.extents.map (·.opening) := List.mem_map_of_mem he
  rw [doc.forest_eq_ofTokens, Forest.openings_ofTokens] at hmem
  obtain ⟨t, ht, hstart⟩ := List.mem_map.mp hmem
  obtain ⟨ht, hkind⟩ := List.mem_filter.mp ht
  unfold onOpening
  rw [onToken_eq ht (hstart.trans hc)]
  exact hkind

/-- An opening delimiter of the text is that of a list. -/
theorem exists_entry_of_onOpening (h : c.onOpening = true) :
    ∃ x ∈ doc.forest.lists, x.extent.opening = c.pos := by
  obtain ⟨e, he, hc⟩ := List.mem_map.mp (opening_of_onOpening h)
  rw [← Forest.entries_extent _ none] at he
  obtain ⟨x, hx, rfl⟩ := List.mem_map.mp he
  exact ⟨x, hx, hc⟩

/-- Behind the opening delimiter of a list is the level of its children. -/
theorem level_inside {x : Forest.Entry} (hx : x ∈ doc.forest.lists)
    (hc : x.extent.opening = c.pos) : (doc.cursorAt (c.pos + 1)).level = x.children.spans := by
  have hopening := onOpening_of_opening (Forest.mem_extents_of_mem_entries hx) hc
  unfold level Forest.level
  rw [pos_inside hopening, ← hc, doc.placed_forest.innermost?_opening_succ hx]
  rfl

/-- The cursor is where an expression of its level starts. -/
def AtStart (c : Cursor doc) : Prop := ∃ s ∈ c.level, c.pos = s.start

theorem atStart_of_mem (hs : s ∈ c.level) (hd : d.pos = s.start) : d.AtStart :=
  ⟨s, (level_of_start hs hd).symm ▸ hs, hd⟩

/-- Each element of a list is related to one of a related list. -/
private theorem exists_rel_of_mem {α β : Type} {P : α → β → Prop} {l : List α} {l' : List β}
    (h : List.Forall₂ P l l') {a : α} (ha : a ∈ l) : ∃ b, P a b := by
  induction h with
  | nil => exact nomatch ha
  | @cons a' b l l' hab _ ih =>
    cases List.mem_cons.mp ha with
    | inl heq => exact ⟨b, heq ▸ hab⟩
    | inr hmem => exact ih hmem

/-- Each expression starts with a token that is no comment. -/
theorem exists_token_of_mem_level (hs : s ∈ c.level) :
    ∃ t ∈ doc.tokens, t.kind ≠ .comment ∧ t.start = s.start := by
  -- A document is alike to itself, by a relation that knows of tokens.
  let R : Nat → Nat → Prop := fun p q => p = q ∧ ∃ t ∈ doc.tokens, t.kind ≠ .comment ∧ t.start = p
  have hforest : doc.forest.Alike R doc.length doc.length doc.forest := by
    rw [doc.forest_eq_ofTokens]
    apply Forest.alike_ofTokens
    rw [List.forall₂_same]
    intro t ht
    obtain ⟨hmem, hkind⟩ := List.mem_filter.mp ht
    exact ⟨rfl, rfl, t, hmem, of_decide_eq_true hkind, rfl⟩
  have hencloses : ∀ {e e' : Extent}, e.Alike R doc.length doc.length e' →
      e.encloses c.pos = e'.encloses c.pos := by
    intro e e' he
    have hopening : e.opening = e'.opening := he.opening.1
    have hclosing : e.closing = e'.closing := by
      rcases he.closing with hR | ⟨hlength, hlength'⟩
      · exact hR.1
      · rw [hlength, hlength']
    unfold Extent.encloses
    rw [hopening, hclosing]
  have hlevel := (hforest.level hencloses).spans
  obtain ⟨s', hstart⟩ := exists_rel_of_mem hlevel hs
  exact hstart.start.2

/-- No expression starts with a comment. -/
theorem AtStart.not_onCommentLine (h : c.AtStart) : c.onCommentLine = false := by
  obtain ⟨s, hs, hc⟩ := h
  obtain ⟨t, ht, hkind, hstart⟩ := exists_token_of_mem_level hs
  unfold onCommentLine onComment
  rw [onToken_eq ht (hstart.trans hc.symm), decide_eq_false hkind, Bool.and_false]

/-- An opening delimiter is not a comment. -/
theorem onCommentLine_of_onOpening (h : c.onOpening = true) : c.onCommentLine = false := by
  obtain ⟨t, ht, hkind, hstart⟩ := exists_token_of_onToken h
  unfold onCommentLine onComment
  rw [onToken_eq ht hstart, hkind, decide_eq_false (by decide), Bool.and_false]

/-! ## Steps inward from opening delimiters -/

/-- The first child of the list at the cursor, unless nothing closes that child. -/
theorem firstChild?_of_opening {x : Forest.Entry} (hx : x ∈ doc.forest.lists)
    (hc : x.extent.opening = c.pos) :
    c.firstChild? = x.children.spans.head?.bind doc.startOf? := by
  unfold firstChild?
  rw [level_inside hx hc]

/-- A step inward from an opening delimiter leads to the first child, unless nothing closes it. -/
theorem enter?_of_opening {x : Forest.Entry} (hx : x ∈ doc.forest.lists)
    (hc : x.extent.opening = c.pos) :
    c.enter? = x.children.spans.head?.bind doc.startOf? := by
  have hopening := onOpening_of_opening (Forest.mem_extents_of_mem_entries hx) hc
  rw [enter?_eq, onCommentLine_of_onOpening hopening, hopening, firstChild?_of_opening hx hc]
  rfl

/-! ## The reach of a cursor -/

/-- How far the cursor reaches: to where its list closes if it is on an opening delimiter, and no
    farther than it stands if not. -/
def reach (c : Cursor doc) : Nat :=
  ((doc.forest.extents.find? fun e => decide (e.opening = c.pos)).map (·.closing)).getD c.pos

theorem reach_of_opening (he : e ∈ doc.forest.extents) (hc : e.opening = c.pos) :
    c.reach = e.closing := by
  unfold reach
  cases hfind : doc.forest.extents.find? fun e => decide (e.opening = c.pos) with
  | none =>
    have := List.find?_eq_none.mp hfind e he
    simp [hc] at this
  | some d =>
    have hopening := List.find?_some hfind
    simp only [decide_eq_true_eq] at hopening
    have hd := List.mem_of_find?_eq_some hfind
    rw [doc.placed_forest.eq_of_opening_eq hd he (hopening.trans hc.symm)]
    rfl

theorem reach_of_not_opening (h : ∀ e ∈ doc.forest.extents, e.opening ≠ c.pos) :
    c.reach = c.pos := by
  unfold reach
  rw [List.find?_eq_none.mpr]
  · rfl
  · intro e he
    simp [h e he]

/-- A cursor is on an opening delimiter, or it reaches no farther than it stands. -/
theorem opening_or_reach_eq (c : Cursor doc) :
    (∃ e ∈ doc.forest.extents, e.opening = c.pos ∧ c.reach = e.closing) ∨ c.reach = c.pos := by
  by_cases h : ∃ e ∈ doc.forest.extents, e.opening = c.pos
  · obtain ⟨e, he, hc⟩ := h
    exact .inl ⟨e, he, hc, reach_of_opening he hc⟩
  · exact .inr (reach_of_not_opening fun e he hc => h ⟨e, he, hc⟩)

theorem pos_le_reach (c : Cursor doc) : c.pos ≤ c.reach := by
  rcases c.opening_or_reach_eq with ⟨e, he, hc, hreach⟩ | hreach
  · have hb := doc.placed_forest.extents_bounds e he
    omega
  · omega

/-- From the start of an expression that something closes, the cursor reaches less far than the
    expression. -/
theorem reach_lt_stop (hs : s ∈ c.level) (hclosed : s.closed = true) (hd : d.pos = s.start) :
    d.reach < s.stop := by
  have hne := c.row.nonempty s hs
  rcases d.opening_or_reach_eq with ⟨e, he, hopening, hreach⟩ | hreach
  · have hspan := eq_span_of_opening hs he (by omega)
    subst hspan
    have hstop := doc.placed_forest.stop_of_closed e he hclosed
    show d.reach < e.stop
    omega
  · omega

/-! ## What steps do to the reach -/

theorem closed_of_startOf? (h : doc.startOf? s = some d) : s.closed = true := by
  unfold Document.startOf? at h
  split at h
  · assumption
  · exact nomatch h

/-- A step forward leads to the start of an expression of the level. -/
theorem exists_span_of_next? (h : c.next? = some d) :
    ∃ s ∈ c.level, s.closed = true ∧ c.pos < s.start ∧ d.pos = s.start := by
  rw [next?_eq] at h
  obtain ⟨s, hs, hd⟩ := Option.bind_eq_some_iff.mp h
  have hmem := List.mem_of_find?_eq_some hs
  have hlt := List.find?_some hs
  simp only [decide_eq_true_eq] at hlt
  exact ⟨s, hmem, closed_of_startOf? hd, hlt, pos_of_startOf? hmem hd⟩

/-- A step forward leads beyond the reach of the cursor. -/
theorem reach_lt_of_next? (h : c.next? = some d) : c.reach < d.pos := by
  obtain ⟨s, hs, -, hlt, hd⟩ := exists_span_of_next? h
  rcases c.opening_or_reach_eq with ⟨e, he, hopening, hreach⟩ | hreach
  · have hb := doc.placed_forest.extents_bounds e he
    have hstart : e.span.start = e.start := rfl
    have hstop : e.span.stop = e.stop := rfl
    have hle := c.row.stop_le_of_start_lt (span_mem_level he hopening) hs (by omega)
    have hend := c.row.stop_le s hs
    have hne := c.row.nonempty s hs
    cases hclosed : e.closed with
    | true =>
      have := doc.placed_forest.stop_of_closed e he hclosed
      omega
    | false =>
      -- Nothing comes after a list that reaches to the end of the text.
      have := (doc.placed_forest.reach_of_unclosed e he hclosed).2
      omega
  · omega

/-- A step backward leads to the start of an expression of the level. -/
theorem exists_span_of_previous? (h : c.previous? = some d) :
    ∃ s ∈ c.level, s.start < c.pos ∧ d.pos = s.start := by
  rw [previous?_eq] at h
  obtain ⟨s, hs, rfl⟩ := Option.map_eq_some_iff.mp h
  have hmem := List.mem_reverse.mp (List.mem_of_find?_eq_some hs)
  have hlt := List.find?_some hs
  simp only [decide_eq_true_eq] at hlt
  have hle := c.pos_le
  exact ⟨s, hmem, hlt, Nat.min_eq_left (by omega)⟩

/-- A step backward leads to a cursor that does not reach back. -/
theorem reach_lt_of_previous? (h : c.previous? = some d) : d.reach < c.pos := by
  obtain ⟨s, hs, hlt, hd⟩ := exists_span_of_previous? h
  rcases d.opening_or_reach_eq with ⟨e, he, hopening, hreach⟩ | hreach
  · -- Its list is an expression of the level of `c`, and so it is not around `c`.
    have hspan := eq_span_of_opening hs he (by omega)
    subst hspan
    have hout := doc.placed_forest.not_encloses_of_span_mem_level he hs
    rw [Extent.encloses_iff] at hout
    omega
  · omega

/-- A step outward leads to the opening delimiter of a list around the cursor. -/
theorem exists_extent_of_leave? (h : c.leave? = some d) :
    ∃ e ∈ doc.forest.extents, e.encloses c.pos = true ∧ d.pos = e.opening := by
  obtain ⟨x, hx, rfl⟩ := Option.map_eq_some_iff.mp h
  have hmem := List.mem_of_getLast? hx
  have hin := Forest.encloses_of_mem_enclosing hmem
  have hlt := (Extent.encloses_iff.mp hin).1
  have hle := c.pos_le
  exact ⟨x.1, Forest.mem_extents_of_mem_enclosing hmem, hin, Nat.min_eq_left (by omega)⟩

/-- A step outward leads to a cursor that reaches at least as far. -/
theorem reach_le_of_leave? (h : c.leave? = some d) : c.reach ≤ d.reach := by
  obtain ⟨e, he, hin, hd⟩ := exists_extent_of_leave? h
  rw [Extent.encloses_iff] at hin
  rw [reach_of_opening he hd.symm]
  rcases c.opening_or_reach_eq with ⟨e', he', hopening, hreach⟩ | hreach
  · -- The list of `c` opens inside `e`.
    rw [hreach]
    exact doc.placed_forest.closing_le_of_opening_mem he he' (by omega) (by omega)
  · omega

/-- A step into a list leads to the start of an expression inside it. The expressions inside a list
    end within the reach of its opening delimiter. -/
theorem exists_span_of_enter? (hline : c.onCommentLine = false) (h : c.enter? = some d) :
    (∃ s ∈ d.level, s.closed = true ∧ d.pos = s.start) ∧ ∀ s ∈ d.level, s.stop ≤ c.reach := by
  obtain ⟨hopening, hfirst⟩ := firstChild?_of_enter? hline h
  obtain ⟨s, hs, hstart⟩ := Option.bind_eq_some_iff.mp hfirst
  have hmem := List.mem_of_mem_head? hs
  have hpos := pos_of_startOf? hmem hstart
  rw [level_of_start hmem hpos]
  refine ⟨⟨s, hmem, closed_of_startOf? hstart, hpos⟩, fun t ht => ?_⟩
  -- The level is what is inside the list, and so it lies between the delimiters.
  obtain ⟨x, hx, hc⟩ := exists_entry_of_onOpening hopening
  have hlevel := level_inside hx hc
  have hb := (doc.placed_forest.children hx).spans_bounds t (hlevel ▸ ht)
  have hreach := reach_of_opening (Forest.mem_extents_of_mem_entries hx) hc
  omega

/-- Steps forward from the start of an expression stay at the starts of expressions of its level. -/
theorem exists_span_of_farthest_forward (hs : s ∈ c.level) (hclosed : s.closed = true)
    (hc : c.pos = s.start) :
    ∃ t ∈ c.level, t.closed = true ∧ ((Advance.forward doc).farthest c).pos = t.start := by
  refine Advance.farthest_induction (m := Advance.forward doc)
    (P := fun b => ∃ t ∈ c.level, t.closed = true ∧ b.pos = t.start) ?_ ⟨s, hs, hclosed, hc⟩
  rintro a b ⟨t, ht, -, ha⟩ hstep
  obtain ⟨u, hu, hclosed, -, hb⟩ := exists_span_of_next? hstep
  exact ⟨u, level_of_start ht ha ▸ hu, hclosed, hb⟩

/-- A step to the last child leads to the start of an expression, which does not reach as far as the
    list does. -/
theorem reach_lt_of_lastChild? (hline : c.onCommentLine = false) (h : c.lastChild? = some d) :
    d.AtStart ∧ d.reach < c.reach := by
  obtain ⟨b, hb, rfl⟩ := Option.map_eq_some_iff.mp h
  obtain ⟨⟨s, hs, hclosed, hpos⟩, hinside⟩ := exists_span_of_enter? hline hb
  obtain ⟨t, ht, hclosed, hfar⟩ := exists_span_of_farthest_forward hs hclosed hpos
  have hlt := reach_lt_stop ht hclosed hfar
  have hle := hinside t ht
  exact ⟨atStart_of_mem ht hfar, by omega⟩

end Cursor

end SExprNav
