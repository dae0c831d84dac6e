import SExprNav.Proofs.Cursor.Reach
import SExprNav.Proofs.Forest.Order

/-!
# Steps between expressions

Where the steps lead from the start of an expression: to the starts of its siblings, its parent and
its children, if all lists are closed and none has quote marks in front. Without that, a step does
not go to a list that nothing closes, and the step outward goes to an opening delimiter, which is
not where the list starts if there are quote marks.

## Key results

- `Document.IsLevel.next?_startOf`, `Document.IsLevel.previous?_startOf`: the siblings
- `Document.IsLevel.leave?_startOf`: the parent
- `Document.IsLevel.enter?_startOf_leaf`, `Document.enter?_startOf_list`,
  `Document.lastChild?_startOf_list`: the children
-/

namespace SExprNav

namespace Row

variable {length : Nat} {pre post : List Span} {s : Span}

/-- From the start of an expression, the next one to start is the one after it. -/
theorem find?_start_after (h : Row length (pre ++ s :: post)) :
    (pre ++ s :: post).find? (fun t => decide (s.start < t.start)) = post.head? := by
  have hne := h.nonempty s mem_middle
  have hsplit : SplitAt s.start (pre ++ s :: post) pre s post := ⟨rfl, h.before, hne⟩
  exact hsplit.find?_start_of_le h (Nat.le_refl _)

/-- From the start of an expression, the last one to start before is the one in front of it. -/
theorem find?_start_before (h : Row length (pre ++ s :: post)) :
    (pre ++ s :: post).reverse.find? (fun t => decide (t.start < s.start)) = pre.getLast? := by
  have hpost : ∀ t ∈ post.reverse, ¬ decide (t.start < s.start) = true := by
    intro t ht
    have hne := h.nonempty s mem_middle
    have hafter := h.after t (List.mem_reverse.mp ht)
    rw [decide_eq_true_eq]
    omega
  have hpre : ∀ t ∈ pre.reverse, decide (t.start < s.start) = true := by
    intro t ht
    have hne := h.nonempty t (by simp [List.mem_reverse.mp ht])
    have hbefore := h.before t (List.mem_reverse.mp ht)
    exact decide_eq_true (by omega)
  rw [List.reverse_append, List.reverse_cons, List.append_assoc, find?_append_of_none hpost,
    List.singleton_append, List.find?_cons_of_neg (by simp), find?_eq_head?_of_forall hpre,
    List.head?_reverse]

end Row

namespace Forest

theorem Plain.closed {f : Forest} (h : f.Plain) : ∀ e ∈ f.extents, e.closed = true :=
  fun e he => (h e he).1

/-- If all lists are closed, all expressions are. -/
theorem closed_of_mem_preorder {f : Forest} (h : ∀ e ∈ f.extents, e.closed = true) :
    ∀ s ∈ f.preorder, s.closed = true := by
  induction f with
  | nil => exact nofun
  | leaf start stop next ih => exact List.forall_mem_cons.mpr ⟨rfl, ih h⟩
  | list e children next ihc ihn =>
    simp only [extents, List.cons_append, List.forall_mem_cons, List.forall_mem_append] at h
    simp only [preorder, List.forall_mem_cons, List.forall_mem_append]
    exact ⟨h.1, ihc h.2.1, ihn h.2.2⟩

/-- The expressions of a level are among all expressions. -/
theorem Placed.mem_preorder {lo hi : Nat} {f : Forest} (h : f.Placed lo hi)
    {ℓ : Option Extent × Forest} (hℓ : ℓ ∈ f.levels) {s : Span} (hs : s ∈ ℓ.2.spans) :
    s ∈ f.preorder := by
  have hmem : (⟨ℓ.1, s⟩ : Node) ∈ ℓ.2.spans.map (⟨ℓ.1, ·⟩) := List.mem_map_of_mem hs
  rw [← h.nodes_of_level hℓ] at hmem
  rw [← f.nodes_span none]
  exact List.mem_map.mpr ⟨_, (List.mem_filter.mp hmem).1, rfl⟩

end Forest

namespace Document

variable {doc : Document} {parent : Option Extent} {pre post : List Span} {s : Span}

/-- The cursor at the start of an expression. -/
def startOf (doc : Document) (s : Span) : Cursor doc := doc.cursorAt s.start

/-- The expressions are those of a level: the children of the list `parent`, or the expressions at
    the top level. -/
def IsLevel (doc : Document) (parent : Option Extent) (spans : List Span) : Prop :=
  ∃ f, (parent, f) ∈ doc.forest.levels ∧ f.spans = spans

theorem pos_startOf (hs : s ∈ doc.forest.preorder) : (doc.startOf s).pos = s.start := by
  have hb := doc.placed_forest.preorder_bounds s hs
  exact Nat.min_eq_left (by omega)

theorem startOf?_of_closed (h : s.closed = true) : doc.startOf? s = some (doc.startOf s) := by
  rw [startOf?, if_pos h]
  rfl

/-- The start of an expression of a level is a cursor of the same level. -/
theorem pos_startOf_of_level {c : Cursor doc} (hs : s ∈ c.level) :
    (doc.startOf s).pos = s.start := by
  have hstop := c.row.stop_le s hs
  have hne := c.row.nonempty s hs
  exact Nat.min_eq_left (by omega)

theorem level_startOf {c : Cursor doc} (hs : s ∈ c.level) : (doc.startOf s).level = c.level :=
  Cursor.level_of_start hs (pos_startOf_of_level hs)

/-- Each level is that of some cursor. -/
theorem exists_cursor_of_level {ℓ : Option Extent × Forest} (hℓ : ℓ ∈ doc.forest.levels) :
    ∃ c : Cursor doc, (doc.forest.innermost? c.pos).map (·.1) = ℓ.1 ∧
      doc.forest.level c.pos = ℓ.2 := by
  cases List.mem_cons.mp hℓ with
  | inl hroot =>
    -- Nothing is around the start of the text.
    subst hroot
    have hnone : doc.forest.innermost? (doc.cursorAt 0).pos = none := by
      have hle : (doc.cursorAt 0).pos ≤ 0 := Nat.min_le_left 0 _
      unfold Forest.innermost?
      rw [doc.placed_forest.enclosing_eq_nil hle]
      rfl
    refine ⟨doc.cursorAt 0, by rw [hnone]; rfl, ?_⟩
    unfold Forest.level
    rw [hnone]
    rfl
  | inr hlist =>
    -- Behind the opening delimiter of a list is what is inside it.
    obtain ⟨x, hx, rfl⟩ := List.mem_map.mp hlist
    have hb := doc.placed_forest.extents_bounds _ (Forest.mem_extents_of_mem_entries hx)
    have hinside := doc.placed_forest.innermost?_opening_succ hx
    refine ⟨⟨x.extent.opening + 1, by omega⟩, by rw [hinside]; rfl, ?_⟩
    unfold Forest.level
    rw [hinside]
    rfl

namespace IsLevel

/-- What is around the start of an expression is what is around its level. -/
theorem enclosing_startOf {spans : List Span} (h : doc.IsLevel parent spans) (hs : s ∈ spans) :
    (doc.forest.innermost? (doc.startOf s).pos).map (·.1) = parent ∧
      (doc.startOf s).level = spans := by
  obtain ⟨f, hf, rfl⟩ := h
  obtain ⟨c, hparent, hlevel⟩ := exists_cursor_of_level hf
  dsimp only at hparent hlevel
  have hpos : (doc.startOf s).pos = s.start :=
    pos_startOf (doc.placed_forest.mem_preorder hf hs)
  have hsame : doc.forest.enclosing (doc.startOf s).pos = doc.forest.enclosing c.pos := by
    rw [hpos]
    exact doc.placed_forest.enclosing_of_start (by rw [hlevel]; exact hs)
  constructor
  · rw [← hparent]
    unfold Forest.innermost?
    rw [hsame]
  · unfold Cursor.level
    rw [Forest.level_of_enclosing_eq hsame, hlevel]

theorem closed {spans : List Span} (h : doc.IsLevel parent spans)
    (hclosed : ∀ e ∈ doc.forest.extents, e.closed = true) (hs : s ∈ spans) : s.closed = true := by
  obtain ⟨f, hf, rfl⟩ := h
  exact Forest.closed_of_mem_preorder hclosed s (doc.placed_forest.mem_preorder hf hs)

theorem pos_startOf {spans : List Span} (h : doc.IsLevel parent spans) (hs : s ∈ spans) :
    (doc.startOf s).pos = s.start := by
  obtain ⟨f, hf, rfl⟩ := h
  exact Document.pos_startOf (doc.placed_forest.mem_preorder hf hs)

/-- How the expressions of a level lie. -/
theorem row (h : doc.IsLevel parent (pre ++ s :: post)) : Row doc.length (pre ++ s :: post) := by
  rw [← (h.enclosing_startOf Row.mem_middle).2]
  exact (doc.startOf s).row

/-! ## Siblings and parent -/

/-- A step forward leads to the next sibling. -/
theorem next?_startOf (h : doc.IsLevel parent (pre ++ s :: post)) (hplain : doc.forest.Plain) :
    (doc.startOf s).next? = post.head?.map doc.startOf := by
  rw [Cursor.next?_eq, (h.enclosing_startOf Row.mem_middle).2, h.pos_startOf Row.mem_middle,
    h.row.find?_start_after]
  cases post with
  | nil => rfl
  | cons t post => exact startOf?_of_closed (h.closed hplain.closed (by simp))

/-- A step backward leads to the previous sibling. -/
theorem previous?_startOf (h : doc.IsLevel parent (pre ++ s :: post)) :
    (doc.startOf s).previous? = pre.getLast?.map doc.startOf := by
  rw [Cursor.previous?_eq, (h.enclosing_startOf Row.mem_middle).2, h.pos_startOf Row.mem_middle,
    h.row.find?_start_before]
  rfl

/-- A step outward leads to the opening delimiter of the parent. -/
theorem leave?_eq {spans : List Span} (h : doc.IsLevel parent spans) (hs : s ∈ spans) :
    (doc.startOf s).leave? = parent.map fun e => doc.cursorAt e.opening := by
  rw [← (h.enclosing_startOf hs).1, Option.map_map]
  rfl

/-- A step outward leads to the parent. -/
theorem leave?_startOf {spans : List Span} (h : doc.IsLevel parent spans)
    (hplain : doc.forest.Plain) (hs : s ∈ spans) :
    (doc.startOf s).leave? = parent.map fun e => doc.startOf e.span := by
  rw [h.leave?_eq hs]
  cases parent with
  | none => rfl
  | some e =>
    -- No quote marks are in front of the opening delimiter.
    have he : e ∈ doc.forest.extents := by
      obtain ⟨x, hx, hxe⟩ := Option.map_eq_some_iff.mp (h.enclosing_startOf hs).1
      exact hxe ▸ Forest.mem_extents_of_mem_enclosing (List.mem_of_getLast? hx)
    show some (doc.cursorAt e.opening) = some (doc.cursorAt e.start)
    rw [(hplain e he).2]

/-! ## Children -/

/-- An expression does not start with a comment. -/
theorem not_onCommentLine {spans : List Span} (h : doc.IsLevel parent spans) (hs : s ∈ spans) :
    (doc.startOf s).onCommentLine = false := by
  have hstart : (doc.startOf s).AtStart :=
    ⟨s, by rw [(h.enclosing_startOf hs).2]; exact hs, h.pos_startOf hs⟩
  exact hstart.not_onCommentLine

/-- There is no step into an atom or a string. -/
theorem enter?_startOf_leaf {spans : List Span} (h : doc.IsLevel parent spans) (hs : s ∈ spans)
    (hleaf : s.isList = false) : (doc.startOf s).enter? = none := by
  have hopening : (doc.startOf s).onOpening = false := by
    by_contra hne
    have hon : (doc.startOf s).onOpening = true := by simpa using hne
    obtain ⟨e, he, hpos⟩ := List.mem_map.mp (Cursor.opening_of_onOpening hon)
    rw [h.pos_startOf hs] at hpos
    have hlevel : s ∈ (doc.startOf s).level := by
      rw [(h.enclosing_startOf hs).2]
      exact hs
    -- What starts with an opening delimiter is a list.
    rw [Cursor.eq_span_of_opening hlevel he hpos] at hleaf
    cases hleaf
  rw [Cursor.enter?_eq, h.not_onCommentLine hs, hopening]
  rfl

theorem lastChild?_startOf_leaf {spans : List Span} (h : doc.IsLevel parent spans) (hs : s ∈ spans)
    (hleaf : s.isList = false) : (doc.startOf s).lastChild? = none := by
  unfold Cursor.lastChild?
  rw [h.enter?_startOf_leaf hs hleaf]
  rfl

/-- Steps inward stay at an atom or a string, and so does the descent. -/
theorem farthest_inward_leaf {spans : List Span} (h : doc.IsLevel parent spans) (hs : s ∈ spans)
    (hleaf : s.isList = false) : (Advance.inward doc).farthest (doc.startOf s) = doc.startOf s :=
  Advance.farthest_of_none (h.enter?_startOf_leaf hs hleaf)

theorem farthest_descent_leaf {spans : List Span} (h : doc.IsLevel parent spans) (hs : s ∈ spans)
    (hleaf : s.isList = false) : (Advance.descent doc).farthest (doc.startOf s) = doc.startOf s :=
  Advance.farthest_of_none (h.lastChild?_startOf_leaf hs hleaf)

/-- Steps forward lead to the last sibling. -/
theorem farthest_forward_startOf (h : doc.IsLevel parent (pre ++ s :: post))
    (hplain : doc.forest.Plain) :
    (Advance.forward doc).farthest (doc.startOf s) = doc.startOf (post.getLast?.getD s) := by
  have hnext := h.next?_startOf hplain
  induction post generalizing pre s with
  | nil => exact Advance.farthest_of_none hnext
  | cons t post ih =>
    have h' : doc.IsLevel parent ((pre ++ [s]) ++ t :: post) := by simpa using h
    rw [Advance.farthest_of_some hnext, ih h' (h'.next?_startOf hplain), List.getLast?_cons]
    rfl

end IsLevel

/-- What is inside a list is a level. -/
theorem isLevel_children {x : Forest.Entry} (hx : x ∈ doc.forest.lists) :
    doc.IsLevel (some x.extent) x.children.spans :=
  ⟨x.children, List.mem_cons_of_mem _ (List.mem_map.mpr ⟨x, hx, rfl⟩), rfl⟩

/-- A step into a list leads to its first child. -/
theorem enter?_startOf_list (hplain : doc.forest.Plain) {x : Forest.Entry}
    (hx : x ∈ doc.forest.lists) :
    (doc.startOf x.extent.span).enter? = x.children.spans.head?.map doc.startOf := by
  have he := Forest.mem_extents_of_mem_entries hx
  have hb := doc.placed_forest.extents_bounds _ he
  have hpos : (doc.startOf x.extent.span).pos = x.extent.opening := by
    have hstart := (hplain _ he).2
    show min x.extent.start doc.length = x.extent.opening
    omega
  rw [Cursor.enter?_of_opening hx hpos.symm]
  cases hspans : x.children.spans with
  | nil => rfl
  | cons s rest =>
    have hs : s ∈ x.children.spans := by
      rw [hspans]
      exact List.mem_cons_self
    exact startOf?_of_closed ((isLevel_children hx).closed hplain.closed hs)

/-- A step to the last child leads there. -/
theorem lastChild?_startOf_list (hplain : doc.forest.Plain) {x : Forest.Entry}
    (hx : x ∈ doc.forest.lists) :
    (doc.startOf x.extent.span).lastChild? = x.children.spans.getLast?.map doc.startOf := by
  have hlevel := isLevel_children hx
  unfold Cursor.lastChild?
  rw [enter?_startOf_list hplain hx]
  cases hspans : x.children.spans with
  | nil => rfl
  | cons s rest =>
    -- From the first child, steps forward lead to the last one.
    have hfirst : doc.IsLevel (some x.extent) ([] ++ s :: rest) := hspans ▸ hlevel
    have hfar := hfirst.farthest_forward_startOf hplain
    rw [List.head?_cons, List.getLast?_cons, Option.map_some, Option.map_some, Option.map_some,
      hfar]

end Document

end SExprNav
