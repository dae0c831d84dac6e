import SExprNav.Proofs.Cursor.Relatives
import SExprNav.Proofs.Forest.Kinship

/-!
# The first and the last expression

Whether an expression is the very first or the very last one is decided by steps from its start and
from the opening delimiters of the lists around it. A step forward does not go to a list that
nothing closes, so an expression in front of such a list passes for the last one. A step backward
from an opening delimiter goes to the quote marks in front of it, so no expression inside a quoted
list passes for the first one.

## Key results

- `Cursor.On.next?_isNone_iff`, `Cursor.On.previous?_isNone_iff`: when there is no step to a sibling
- `Cursor.On.mem_ancestors_iff`: the cursors outward are at the lists around an expression
- `Document.holds_final_startOf`, `Document.holds_initial_startOf`: the last and the first expression
-/

namespace SExprNav

open Forest (Node Entry)

variable {doc : Document}

namespace Document

/-- An expression and its siblings are a level, with their parent around it. -/
theorem isLevel_siblings {n : Node} (hn : n ∈ doc.forest.nodes none) :
    ∃ spans, doc.IsLevel n.parent spans ∧ n.span ∈ spans ∧
      doc.forest.siblings n = spans.map (⟨n.parent, ·⟩) := by
  obtain ⟨g, hg, hsiblings⟩ := doc.placed_forest.siblings_of_level hn
  have hmem := Forest.mem_siblings hn
  rw [hsiblings] at hmem
  obtain ⟨s, hs, hnode⟩ := List.mem_map.mp hmem
  have hspan : s = n.span := congrArg Node.span hnode
  exact ⟨g.spans, ⟨g, hg, rfl⟩, hspan ▸ hs, hsiblings⟩

theorem pos_startOf_node {n : Node} (hn : n ∈ doc.forest.nodes none) :
    (doc.startOf n.span).pos = n.span.start := by
  obtain ⟨spans, hlevel, hs, -⟩ := isLevel_siblings hn
  exact hlevel.pos_startOf hs

end Document

namespace Cursor

/-- The cursor is on an expression: at its start or in it, but in none of its children. -/
structure On (c : Cursor doc) (n : Node) : Prop where
  mem : n ∈ doc.forest.nodes none
  around : doc.forest.enclosing c.pos = doc.forest.enclosing n.span.start
  start_le : n.span.start ≤ c.pos
  lt_stop : c.pos < n.span.stop

/-- A cursor at the start of an expression is on it. -/
theorem on_startOf {n : Node} (hn : n ∈ doc.forest.nodes none) : (doc.startOf n.span).On n := by
  obtain ⟨spans, hlevel, hs, -⟩ := Document.isLevel_siblings hn
  have hpos := Document.pos_startOf_node hn
  obtain ⟨pre, post, rfl⟩ := List.append_of_mem hs
  have hne := hlevel.row.nonempty n.span hs
  exact ⟨hn, by rw [hpos], by omega, by omega⟩

/-- A cursor at the opening delimiter of a list is on it. -/
theorem on_opening {x : Entry} (hx : x ∈ doc.forest.lists) :
    (doc.cursorAt x.extent.opening).On x.node := by
  have he := Forest.mem_extents_of_mem_entries hx
  have hb := doc.placed_forest.extents_bounds _ he
  have hpos := pos_opening hx
  -- The list is of the level of its opening delimiter, whether or not it starts there.
  have hspan := doc.placed_forest.span_mem_level he
  refine ⟨Forest.node_mem_nodes hx, ?_, ?_, ?_⟩
  · rw [hpos]
    exact (doc.placed_forest.enclosing_of_start hspan).symm
  · rw [hpos]
    exact hb.2.1
  · rw [hpos]
    show x.extent.opening < x.extent.stop
    omega

namespace On

variable {c : Cursor doc} {n : Node}

/-- The siblings of the expression are those of the level of the cursor. -/
theorem siblings_eq (h : c.On n) :
    n.span ∈ c.level ∧ doc.forest.siblings n = c.level.map (⟨n.parent, ·⟩) := by
  obtain ⟨spans, hlevel, hs, hsiblings⟩ := Document.isLevel_siblings h.mem
  have haround : doc.forest.level c.pos = doc.forest.level (doc.startOf n.span).pos := by
    rw [hlevel.pos_startOf hs, Forest.level_of_enclosing_eq h.around]
  have hspans : c.level = spans := by
    rw [← (hlevel.enclosing_startOf hs).2]
    unfold level
    rw [haround]
  rw [hspans]
  exact ⟨hs, hsiblings⟩

/-- The expressions in front of the one that the cursor is on, and those after it. -/
theorem exists_splitAt (h : c.On n) : ∃ pre post, Row.SplitAt c.pos c.level pre n.span post ∧
    (∀ m, doc.forest.IsNext n m ↔ post.head?.map (⟨n.parent, ·⟩) = some m) ∧
      ∀ m, doc.forest.IsNext m n ↔ pre.getLast?.map (⟨n.parent, ·⟩) = some m := by
  obtain ⟨hs, hsiblings⟩ := h.siblings_eq
  obtain ⟨pre, post, hlevel⟩ := List.append_of_mem hs
  have hrow := c.row
  rw [hlevel] at hrow
  rw [hlevel, List.map_append, List.map_cons] at hsiblings
  refine ⟨pre, post, ⟨hlevel, fun t ht => ?_, h.lt_stop⟩, fun m => ?_, fun m => ?_⟩
  · exact Nat.le_trans (hrow.before t ht) h.start_le
  · rw [doc.placed_forest.isNext_iff_head? h.mem hsiblings, List.head?_map]
  · rw [doc.placed_forest.isNext_iff_getLast? h.mem hsiblings, List.getLast?_map]

/-- There is no step forward if there is no next sibling, or nothing closes it. -/
theorem next?_isNone_iff (h : c.On n) :
    c.next?.isNone = true ↔ ∀ m, doc.forest.IsNext n m → m.span.closed = false := by
  obtain ⟨pre, post, hsplit, hnext, -⟩ := h.exists_splitAt
  rw [next?_eq, hsplit.find?_start_of_le c.row h.start_le]
  simp only [hnext]
  cases post.head? with
  | none => simp
  | some t => simp [Document.startOf?]

/-- There is no step backward from the start of an expression without a previous sibling, and there
    is one from everywhere else on an expression. -/
theorem previous?_isNone_iff (h : c.On n) :
    c.previous?.isNone = true ↔
      c.pos = n.span.start ∧ ∀ m, ¬ doc.forest.IsNext m n := by
  obtain ⟨pre, post, hsplit, -, hprevious⟩ := h.exists_splitAt
  simp only [hprevious]
  rw [previous?_eq, Option.isNone_map]
  have hstart := h.start_le
  by_cases hpos : c.pos = n.span.start
  · have hrow := c.row
    rw [hsplit.eq] at hrow ⊢
    rw [hpos, hrow.find?_start_before]
    cases pre.getLast? with
    | none => simp
    | some t => simp
  · -- The expression itself starts before the cursor.
    have hsome : (c.level.reverse.find? fun s => decide (s.start < c.pos)).isSome = true := by
      rw [List.find?_isSome]
      exact ⟨n.span, List.mem_reverse.mpr hsplit.mem, decide_eq_true (by omega)⟩
    rw [← Option.not_isSome, hsome]
    simp [hpos]

/-- A step outward leads to the opening delimiter of the parent. -/
theorem leave?_eq (h : c.On n) : c.leave? = n.parent.map fun e => doc.cursorAt e.opening := by
  obtain ⟨spans, hlevel, hs, -⟩ := Document.isLevel_siblings h.mem
  rw [← hlevel.leave?_eq hs]
  unfold leave? ascend? Forest.innermost?
  rw [hlevel.pos_startOf hs, h.around]

/-- The cursors outward are at the opening delimiters of the lists around the expression. -/
theorem mem_ancestors_iff (h : c.On n) {d : Cursor doc} : d ∈ c.ancestors ↔
    ∃ x ∈ doc.forest.lists, doc.forest.Surrounds x.extent n ∧ d = doc.cursorAt x.extent.opening := by
  -- By induction on the steps outward: the cursor that a step leads to is on the parent.
  fun_induction ancestors c generalizing n with
  | case1 c hnone =>
    -- Without a step outward there is no parent.
    rw [h.leave?_eq, Option.map_eq_none_iff] at hnone
    constructor
    · exact nofun
    · rintro ⟨x, -, ⟨p, hp, -⟩, -⟩
      rw [hnone] at hp
      exact nomatch hp
  | case2 c b hsome ih =>
    rw [h.leave?_eq, Option.map_eq_some_iff] at hsome
    obtain ⟨e, hparent, rfl⟩ := hsome
    obtain ⟨y, hy, rfl⟩ := Forest.exists_entry_of_parent h.mem hparent
    rw [List.mem_cons, ih (on_opening hy)]
    simp only [doc.placed_forest.surrounds_iff hy hparent]
    constructor
    · rintro (rfl | ⟨x, hx, haround, rfl⟩)
      · exact ⟨y, hy, .inl rfl, rfl⟩
      · exact ⟨x, hx, .inr haround, rfl⟩
    · rintro ⟨x, hx, heq | haround, rfl⟩
      · exact .inl (by rw [heq])
      · exact .inr ⟨x, hx, haround, rfl⟩

end On

end Cursor

namespace Document

variable {n : Node}

/-- What holds of the start of an expression and of all cursors outward from it. -/
theorem all_outward_iff (hn : n ∈ doc.forest.nodes none) {p : Cursor doc → Bool} :
    (doc.startOf n.span :: (doc.startOf n.span).ancestors).all p = true ↔
      p (doc.startOf n.span) = true ∧ ∀ x ∈ doc.forest.lists, doc.forest.Surrounds x.extent n →
        p (doc.cursorAt x.extent.opening) = true := by
  simp only [List.all_cons, Bool.and_eq_true, List.all_eq_true,
    (Cursor.on_startOf hn).mem_ancestors_iff]
  apply and_congr_right'
  constructor
  · exact fun h x hx hsurrounds => h _ ⟨x, hx, hsurrounds, rfl⟩
  · rintro h d ⟨x, hx, hsurrounds, rfl⟩
    exact h x hx hsurrounds

/-- An expression passes for the last one exactly if neither it nor any list around it has a next
    sibling that something closes. -/
theorem holds_final_startOf (hn : n ∈ doc.forest.nodes none) :
    Boundary.final.holds (doc.startOf n.span) = true ↔
      ∀ a, doc.forest.InLine a n → ∀ m, doc.forest.IsNext a m → m.span.closed = false := by
  rw [Forest.forall_inLine, ← (Cursor.on_startOf hn).next?_isNone_iff]
  unfold Boundary.holds
  rw [all_outward_iff hn]
  apply and_congr_right'
  exact forall₃_congr fun x hx _ => (Cursor.on_opening hx).next?_isNone_iff

/-- In `(a b) (c`, the expression `b` passes for the last one, since nothing closes the list behind
    the one that it is in. -/
theorem holds_final_startOf_inside :
    let doc := Document.ofText .lisp ['(', 'a', ' ', 'b', ')', ' ', '(', 'c']
    let n : Node := ⟨some ⟨0, 0, 4, 5, true⟩, ⟨3, 4, true, false⟩⟩
    n ∈ doc.forest.nodes none ∧ Boundary.final.holds (doc.startOf n.span) = true ∧
      ∀ a, doc.forest.InLine a n → ∀ m, doc.forest.IsNext a m → m.span.closed = false := by
  intro doc n
  have hn : n ∈ doc.forest.nodes none := by decide
  have hfinal : Boundary.final.holds (doc.startOf n.span) = true := by decide +kernel
  exact ⟨hn, hfinal, (holds_final_startOf hn).mp hfinal⟩

/-- In `a (b`, the expression `a` passes for the last one, although it has a next sibling. -/
theorem final_before_unclosed :
    let doc := Document.ofText .lisp ['a', ' ', '(', 'b']
    let n : Node := ⟨none, ⟨0, 1, true, false⟩⟩
    n ∈ doc.forest.nodes none ∧ ¬ (Boundary.final.holds (doc.startOf n.span) = true ↔
      ∀ a, doc.forest.InLine a n → ∀ m, ¬ doc.forest.IsNext a m) := by
  intro doc n
  refine ⟨by decide, fun h => ?_⟩
  have hfinal : Boundary.final.holds (doc.startOf n.span) = true := by decide +kernel
  have hnext : doc.forest.IsNext n ⟨none, ⟨2, 4, false, true⟩⟩ := ⟨[], [], by decide⟩
  exact h.mp hfinal n (.inl rfl) _ hnext

/-- An expression passes for the first one exactly if neither it nor any list around it has a
    previous sibling, and none of these lists has quote marks in front of it. -/
theorem holds_initial_startOf (hn : n ∈ doc.forest.nodes none) :
    Boundary.initial.holds (doc.startOf n.span) = true ↔
      (∀ a, doc.forest.InLine a n → ∀ m, ¬ doc.forest.IsNext m a) ∧
        ∀ x ∈ doc.forest.lists, doc.forest.Surrounds x.extent n →
          x.extent.start = x.extent.opening := by
  have hstart : (doc.startOf n.span).previous?.isNone = true ↔
      ∀ m, ¬ doc.forest.IsNext m n := by
    rw [(Cursor.on_startOf hn).previous?_isNone_iff]
    exact and_iff_right (pos_startOf_node hn)
  have hopening : ∀ x ∈ doc.forest.lists,
      ((doc.cursorAt x.extent.opening).previous?.isNone = true ↔
        (∀ m, ¬ doc.forest.IsNext m x.node) ∧ x.extent.start = x.extent.opening) := by
    intro x hx
    rw [(Cursor.on_opening hx).previous?_isNone_iff, Cursor.pos_opening hx, and_comm, eq_comm]
    rfl
  unfold Boundary.holds
  rw [all_outward_iff hn, hstart, Forest.forall_inLine, and_assoc]
  apply and_congr_right'
  simp only [← forall_and]
  exact forall₃_congr fun x hx _ => hopening x hx

/-- In `(('a) b`, the quoted atom passes for the first expression; nothing closes the outer list. -/
theorem holds_initial_startOf_quoted :
    let doc := Document.ofText .lisp ['(', '(', '\'', 'a', ')', ' ', 'b']
    let n : Node := ⟨some ⟨1, 1, 4, 5, true⟩, ⟨2, 4, true, false⟩⟩
    n ∈ doc.forest.nodes none ∧ Boundary.initial.holds (doc.startOf n.span) = true ∧
      (∀ a, doc.forest.InLine a n → ∀ m, ¬ doc.forest.IsNext m a) ∧
        ∀ x ∈ doc.forest.lists, doc.forest.Surrounds x.extent n →
          x.extent.start = x.extent.opening := by
  intro doc n
  have hn : n ∈ doc.forest.nodes none := by decide
  have hinitial : Boundary.initial.holds (doc.startOf n.span) = true := by decide +kernel
  exact ⟨hn, hinitial, (holds_initial_startOf hn).mp hinitial⟩

/-- In `'(a)`, the expression `a` does not pass for the first one, although neither it nor the list
    around it has a previous sibling. -/
theorem not_initial_in_quoted :
    let doc := Document.ofText .lisp ['\'', '(', 'a', ')']
    let n : Node := ⟨some ⟨0, 1, 3, 4, true⟩, ⟨2, 3, true, false⟩⟩
    n ∈ doc.forest.nodes none ∧ ¬ (Boundary.initial.holds (doc.startOf n.span) = true ↔
      ∀ a, doc.forest.InLine a n → ∀ m, ¬ doc.forest.IsNext m a) := by
  intro doc n
  refine ⟨by decide, fun h => ?_⟩
  have hinitial : ¬ Boundary.initial.holds (doc.startOf n.span) = true := by decide +kernel
  -- Each of the two expressions is the only one of its level.
  have hone : ∀ m ∈ doc.forest.nodes none, (doc.forest.siblings m).length = 1 := by decide
  refine hinitial (h.mpr fun a _ m hnext => ?_)
  obtain ⟨pre, post, hsplit⟩ := hnext
  have hm : m ∈ doc.forest.siblings m := by
    rw [hsplit]
    simp
  have hlength := hone m (List.mem_filter.mp hm).1
  rw [hsplit] at hlength
  simp at hlength
  omega

end Document

end SExprNav
