import SExprNav.Proofs.Cursor.Relatives

/-!
# Where the walks lead

The steps of the depth-first walks lead along the orders of the forest, if all lists are closed and
none has quote marks in front. `Cursor.Along` says so of a movement and a row of cursors, together
with where the movement leads from the end of the row. The four proofs are inductions over what is
left of a level (`Document.IsRest`): the end of the row inside a list is where the walk goes on
after the list.

## Key results

- `Document.IsRest.along_preorder`, `Document.IsRest.along_preorderBackward`
- `Document.IsRest.along_postorder`, `Document.IsRest.along_postorderBackward`
-/

namespace SExprNav

variable {doc : Document}

/-- The movement leads along the row, from each cursor to the next one, and from the last cursor to
    `out`. -/
def Cursor.Along (f : Cursor doc → Option (Cursor doc)) :
    (row : List (Cursor doc)) → (out : Option (Cursor doc)) → Prop
  | [], _ => True
  | c :: row, out => f c = row.head?.or out ∧ Along f row out

/-- A movement leads along two rows one after the other if it leads from the end of the first one to
    the start of the second one. -/
theorem Cursor.along_append {f : Cursor doc → Option (Cursor doc)} {row row' : List (Cursor doc)}
    {out : Option (Cursor doc)} :
    Along f (row ++ row') out ↔ Along f row (row'.head?.or out) ∧ Along f row' out := by
  induction row with
  | nil => simp [Along]
  | cons c row ih =>
    rw [List.cons_append, Along, Along, ih, List.head?_append, Option.or_assoc, and_assoc]

namespace Document

open Cursor (Along along_append)

variable {parent : Option Extent} {before : List Span} {f children next : Forest} {e : Extent}

/-- The forest is what is left of a level after the expressions `before`. -/
structure IsRest (doc : Document) (parent : Option Extent) (before : List Span) (f : Forest) :
    Prop where
  level : doc.IsLevel parent (before ++ f.spans)
  lists : ∀ x ∈ f.entries parent, x ∈ doc.forest.lists

theorem isRest_forest (doc : Document) : doc.IsRest none [] doc.forest :=
  ⟨⟨doc.forest, List.mem_cons_self, rfl⟩, fun _ hx => hx⟩

namespace IsRest

/-- The last of the expressions before the rest, put in front of it again. -/
theorem level_cons {s : Span} (h : doc.IsRest parent (before ++ [s]) next) :
    doc.IsLevel parent (before ++ s :: next.spans) := by
  rw [List.append_cons]
  exact h.level

theorem after_leaf {start stop : Nat} (h : doc.IsRest parent before (.leaf start stop next)) :
    doc.IsRest parent (before ++ [⟨start, stop, true, false⟩]) next := by
  constructor
  · rw [List.append_assoc]
    exact h.level
  · exact h.lists

theorem mem_lists (h : doc.IsRest parent before (.list e children next)) :
    ⟨parent, e, children⟩ ∈ doc.forest.lists :=
  h.lists _ (by simp [Forest.entries])

theorem after_list (h : doc.IsRest parent before (.list e children next)) :
    doc.IsRest parent (before ++ [e.span]) next := by
  constructor
  · rw [List.append_assoc]
    exact h.level
  · exact fun x hx => h.lists x (by simp [Forest.entries, hx])

theorem inside (h : doc.IsRest parent before (.list e children next)) :
    doc.IsRest (some e) [] children :=
  ⟨isLevel_children h.mem_lists, fun x hx => h.lists x (by simp [Forest.entries, hx])⟩

end IsRest

/-- Where the goal leads from the closest list around a level from where it leads anywhere. -/
def above (doc : Document) (goal : Cursor doc → Option (Cursor doc)) (parent : Option Extent) :
    Option (Cursor doc) :=
  parent.bind fun e =>
    (goal (doc.startOf e.span)).or ((Advance.outward doc).seek goal (doc.startOf e.span))

/-- Going outward from an expression leads to the lists around its level. -/
theorem IsLevel.seek_startOf {spans : List Span} {s : Span} (h : doc.IsLevel parent spans)
    (hplain : doc.forest.Plain) (hs : s ∈ spans) (goal : Cursor doc → Option (Cursor doc)) :
    (Advance.outward doc).seek goal (doc.startOf s) = doc.above goal parent := by
  have hleave := h.leave?_startOf hplain hs
  cases parent with
  | none => exact Advance.seek_of_none hleave
  | some e => exact Advance.seek_of_some hleave

/-- Before an expression, the walk comes to the end of the preorder of the previous sibling, or to
    the parent. -/
theorem IsLevel.preorderBackward?_startOf {post : List Span} {s : Span}
    (h : doc.IsLevel parent (before ++ s :: post)) (hplain : doc.forest.Plain) :
    (doc.startOf s).preorderBackward? =
      ((before.getLast?.map doc.startOf).map (Advance.descent doc).farthest).or
        (parent.map fun e => doc.startOf e.span) := by
  unfold Cursor.preorderBackward?
  rw [h.previous?_startOf, h.leave?_startOf hplain Row.mem_middle]

/-- Before what is inside an expression, the walk goes on to the previous sibling of the expression
    or of the lists around it. -/
theorem IsLevel.previous_or_above {post : List Span} {s : Span}
    (h : doc.IsLevel parent (before ++ s :: post)) (hplain : doc.forest.Plain) :
    (doc.startOf s).previous?.or ((Advance.outward doc).seek Cursor.previous? (doc.startOf s)) =
      (before.getLast?.map doc.startOf).or (doc.above Cursor.previous? parent) := by
  rw [h.previous?_startOf, h.seek_startOf hplain Row.mem_middle]

namespace IsRest

variable {s : Span}

/-! ## Preorder -/

/-- After an expression, the walk goes on to the next sibling of it or of the lists around it. -/
theorem next_or_above (h : doc.IsRest parent (before ++ [s]) next) (hplain : doc.forest.Plain) :
    (doc.startOf s).next?.or ((Advance.outward doc).seek Cursor.next? (doc.startOf s)) =
      ((next.preorder.map doc.startOf).head?).or (doc.above Cursor.next? parent) := by
  have hlevel := h.level_cons
  rw [hlevel.next?_startOf hplain, hlevel.seek_startOf hplain Row.mem_middle, List.head?_map,
    Forest.head?_preorder]

/-- Steps in preorder lead along the preorder. -/
theorem along_preorder (h : doc.IsRest parent before f) (hplain : doc.forest.Plain) :
    Along Cursor.preorder? (f.preorder.map doc.startOf) (doc.above Cursor.next? parent) := by
  induction f generalizing parent before with
  | nil => trivial
  | leaf start stop next ih =>
    refine ⟨?_, ih h.after_leaf⟩
    unfold Cursor.preorder?
    rw [h.level.enter?_startOf_leaf Row.mem_middle rfl, h.after_leaf.next_or_above hplain,
      Option.none_or]
  | list e children next ihc ihn =>
    -- The end of the row inside the list is where the walk goes on after the list.
    have hout : doc.above Cursor.next? (some e) =
        ((next.preorder.map doc.startOf).head?).or (doc.above Cursor.next? parent) :=
      h.after_list.next_or_above hplain
    have hchildren := ihc h.inside
    rw [hout] at hchildren
    have hfirst : (children.preorder.map doc.startOf).head? =
        children.spans.head?.map doc.startOf := by
      rw [List.head?_map, Forest.head?_preorder]
    rw [Forest.preorder, List.map_cons, List.map_append]
    refine ⟨?_, along_append.mpr ⟨hchildren, ihn h.after_list⟩⟩
    unfold Cursor.preorder?
    rw [enter?_startOf_list hplain h.mem_lists, h.after_list.next_or_above hplain,
      List.head?_append, Option.or_assoc, hfirst]

/-! ## Preorder, backward -/

/-- The descent from a list leads to the last of the expressions inside it, or stays if there are
    none. What `hchildren` says of its children is `farthest_descent`. -/
theorem farthest_descent_list (h : doc.IsRest parent before (.list e children next))
    (hplain : doc.forest.Plain)
    (hchildren : (children.spans.getLast?.map doc.startOf).map (Advance.descent doc).farthest =
      children.preorder.getLast?.map doc.startOf) :
    (Advance.descent doc).farthest (doc.startOf e.span) =
      doc.startOf (children.preorder.getLast?.getD e.span) := by
  have hstep : (Advance.descent doc).movement (doc.startOf e.span) =
      children.spans.getLast?.map doc.startOf := lastChild?_startOf_list hplain h.mem_lists
  rw [Advance.farthest_eq, hstep, hchildren, Option.getD_map]

/-- The descent from the last expression of a level leads to the end of the preorder. -/
theorem farthest_descent (h : doc.IsRest parent before f) (hplain : doc.forest.Plain) :
    (f.spans.getLast?.map doc.startOf).map (Advance.descent doc).farthest =
      f.preorder.getLast?.map doc.startOf := by
  -- The last expression of the level is the first one if there are no others.
  have hlast : ∀ {s t : Span} {spans row : List Span},
      (Advance.descent doc).farthest (doc.startOf s) = doc.startOf t →
      (spans.getLast?.map doc.startOf).map (Advance.descent doc).farthest =
        row.getLast?.map doc.startOf →
      ((s :: spans).getLast?.map doc.startOf).map (Advance.descent doc).farthest =
        some (doc.startOf (row.getLast?.getD t)) := by
    intro s t spans row hs hrest
    rw [List.getLast?_cons, Option.map_some, Option.map_some, ← Option.getD_map doc.startOf,
      ← Option.getD_map (Advance.descent doc).farthest, ← Option.getD_map doc.startOf, hs, hrest]
  induction f generalizing parent before with
  | nil => rfl
  | leaf start stop next ih =>
    have hstay := h.level.farthest_descent_leaf Row.mem_middle rfl
    rw [Forest.spans, hlast hstay (ih h.after_leaf), Forest.preorder, List.getLast?_cons,
      Option.map_some]
  | list e children next ihc ihn =>
    have hinside := h.farthest_descent_list hplain (ihc h.inside)
    rw [Forest.spans, ← Extent.span, hlast hinside (ihn h.after_list), Forest.preorder,
      List.getLast?_cons, List.getLast?_append, Option.getD_or, Option.map_some]

/-- Steps backward in preorder lead backward along the preorder. -/
theorem along_preorderBackward (h : doc.IsRest parent before f) (hplain : doc.forest.Plain) :
    Along Cursor.preorderBackward? (f.preorder.map doc.startOf).reverse
      (((before.getLast?.map doc.startOf).map (Advance.descent doc).farthest).or
        (parent.map fun e => doc.startOf e.span)) := by
  induction f generalizing parent before with
  | nil => trivial
  | leaf start stop next ih =>
    have hnext := ih h.after_leaf
    rw [List.getLast?_concat, Option.map_some, Option.map_some,
      h.level.farthest_descent_leaf Row.mem_middle rfl] at hnext
    rw [Forest.preorder, List.map_cons, List.reverse_cons]
    refine along_append.mpr ⟨hnext, ?_, trivial⟩
    exact h.level.preorderBackward?_startOf hplain
  | list e children next ihc ihn =>
    have hchildren := ihc h.inside
    have hnext := ihn h.after_list
    -- The walk comes to what is after the list from the end of what is inside it.
    rw [List.getLast?_concat, Option.map_some, Option.map_some,
      h.farthest_descent_list hplain (h.inside.farthest_descent hplain)] at hnext
    have hlast : ((children.preorder.map doc.startOf).reverse ++ [doc.startOf e.span]).head? =
        some (doc.startOf (children.preorder.getLast?.getD e.span)) := by
      rw [List.head?_append, List.head?_reverse, List.getLast?_map]
      cases children.preorder.getLast? <;> rfl
    rw [Forest.preorder, List.map_cons, List.map_append, List.reverse_cons, List.reverse_append,
      List.append_assoc, along_append, hlast]
    refine ⟨hnext, along_append.mpr ⟨hchildren, ?_, trivial⟩⟩
    exact h.level.preorderBackward?_startOf hplain

/-! ## Postorder -/

/-- Steps inward from a list lead to the first of the expressions inside it, or stay if there are
    none. What `hchildren` says of its children is `farthest_inward`. -/
theorem farthest_inward_list (h : doc.IsRest parent before (.list e children next))
    (hplain : doc.forest.Plain)
    (hchildren : (children.spans.head?.map doc.startOf).map (Advance.inward doc).farthest =
      children.postorder.head?.map doc.startOf) :
    (Advance.inward doc).farthest (doc.startOf e.span) =
      doc.startOf (children.postorder.head?.getD e.span) := by
  have hstep : (Advance.inward doc).movement (doc.startOf e.span) =
      children.spans.head?.map doc.startOf := enter?_startOf_list hplain h.mem_lists
  rw [Advance.farthest_eq, hstep, hchildren, Option.getD_map]

/-- Steps inward from the first expression of a level lead to the start of the postorder. -/
theorem farthest_inward (h : doc.IsRest parent before f) (hplain : doc.forest.Plain) :
    (f.spans.head?.map doc.startOf).map (Advance.inward doc).farthest =
      f.postorder.head?.map doc.startOf := by
  induction f generalizing parent before with
  | nil => rfl
  | leaf start stop next _ =>
    exact congrArg some (h.level.farthest_inward_leaf Row.mem_middle rfl)
  | list e children next ihc _ =>
    have hinside := h.farthest_inward_list hplain (ihc h.inside)
    rw [Forest.postorder, List.head?_append, List.head?_cons, Option.or_some, Option.map_some,
      ← hinside]
    rfl

/-- After an expression, the walk comes to the start of the postorder of the next sibling, or to the
    parent. -/
theorem postorder?_startOf (h : doc.IsRest parent (before ++ [s]) next)
    (hplain : doc.forest.Plain) :
    (doc.startOf s).postorder? =
      ((next.postorder.map doc.startOf).head?).or (parent.map fun e => doc.startOf e.span) := by
  have hlevel := h.level_cons
  unfold Cursor.postorder?
  rw [hlevel.next?_startOf hplain, hlevel.leave?_startOf hplain Row.mem_middle,
    h.farthest_inward hplain, List.head?_map]

/-- Steps in postorder lead along the postorder. -/
theorem along_postorder (h : doc.IsRest parent before f) (hplain : doc.forest.Plain) :
    Along Cursor.postorder? (f.postorder.map doc.startOf)
      (parent.map fun e => doc.startOf e.span) := by
  induction f generalizing parent before with
  | nil => trivial
  | leaf start stop next ih =>
    exact ⟨h.after_leaf.postorder?_startOf hplain, ih h.after_leaf⟩
  | list e children next ihc ihn =>
    -- The walk comes to the list from the end of what is inside it.
    rw [Forest.postorder, List.map_append, List.map_cons]
    refine along_append.mpr ⟨ihc h.inside, ?_, ihn h.after_list⟩
    exact h.after_list.postorder?_startOf hplain

/-! ## Postorder, backward -/

/-- Steps backward in postorder lead backward along the postorder. -/
theorem along_postorderBackward (h : doc.IsRest parent before f) (hplain : doc.forest.Plain) :
    Along Cursor.postorderBackward? (f.postorder.map doc.startOf).reverse
      ((before.getLast?.map doc.startOf).or (doc.above Cursor.previous? parent)) := by
  induction f generalizing parent before with
  | nil => trivial
  | leaf start stop next ih =>
    have hnext := ih h.after_leaf
    rw [List.getLast?_concat] at hnext
    rw [Forest.postorder, List.map_cons, List.reverse_cons]
    refine along_append.mpr ⟨hnext, ?_, trivial⟩
    unfold Cursor.postorderBackward?
    rw [h.level.lastChild?_startOf_leaf Row.mem_middle rfl, h.level.previous_or_above hplain]
    rfl
  | list e children next ihc ihn =>
    have hprevious := h.level.previous_or_above hplain
    have hchildren : Along Cursor.postorderBackward? (children.postorder.map doc.startOf).reverse
        ((before.getLast?.map doc.startOf).or (doc.above Cursor.previous? parent)) := by
      rw [← hprevious]
      exact ihc h.inside
    have hnext := ihn h.after_list
    rw [List.getLast?_concat] at hnext
    rw [Forest.postorder, List.map_append, List.map_cons, List.reverse_append, List.reverse_cons,
      List.append_assoc, List.singleton_append]
    refine along_append.mpr ⟨hnext, ?_, hchildren⟩
    -- The last child comes before the list.
    unfold Cursor.postorderBackward?
    rw [lastChild?_startOf_list hplain h.mem_lists, List.head?_reverse, List.getLast?_map,
      Forest.getLast?_postorder]
    exact congrArg _ hprevious

end IsRest

end Document

end SExprNav
