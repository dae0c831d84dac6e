import SExprNav.Proofs.Cursor.Relatives
import SExprNav.Proofs.Forest.Chain

/-!
# What moves do to depth and place

Each step changes the depth of the cursor by just what its unit move says, also from the middle of an
expression and in lists that nothing closes; only from comment lines a step inward leads anywhere. A
step to the side stays within the same lists, and from the start of one of the expressions there it
leads to the start of the neighbour.

A relation between a move and two cursors that adds up holds of all moves in a direction if it holds
of the steps in this direction.

## Key results

- `AddsUp.go`: what adds up holds of moves if it holds of steps
- `Cursor.ensures_deepens`: a step changes the depth by what its unit move says
- `Cursor.ensures_sidesteps_forward`, `Cursor.ensures_sidesteps_backward`: a step to the side goes
  from child to child
-/

namespace SExprNav

variable {doc : Document}

/-- The relation between a move, where it starts and where it ends holds of no displacement, and of
    the sum of two moves if it holds of both. -/
structure AddsUp (D : Move → Cursor doc → Cursor doc → Prop) : Prop where
  zero : ∀ c, D .zero c c
  add : ∀ {m n c c' d}, D m c c' → D n c' d → D (m + n) c d

namespace Direction

theorem move_zero (dir : Direction) : dir.move 0 = .zero := by
  cases dir <;> rfl

theorem move_succ (dir : Direction) (n : Nat) : dir.move (n + 1) = dir.unit + dir.move n := by
  unfold move Move.scale
  have hsucc : ∀ u : Int, u * (n + 1 : Nat) = u + u * n := by
    intro u
    rw [Int.natCast_succ, Int.mul_add, Int.mul_one, Int.add_comm]
  ext
  · exact hsucc dir.unit.x
  · exact hsucc dir.unit.y

/-- The relation holds of each step in the direction. -/
def Ensures (dir : Direction) (D : Move → Cursor doc → Cursor doc → Prop) : Prop :=
  ∀ c d, Cursor.step? dir c = some d → D dir.unit c d

end Direction

namespace AddsUp

open Cursor (step? repeated)

variable {D : Move → Cursor doc → Cursor doc → Prop} {dir : Direction} {n k : Nat} {c d : Cursor doc}

theorem repeated (hD : AddsUp D) (hstep : dir.Ensures D)
    (h : repeated (step? dir) n c = (k, d)) : D (dir.move k) c d := by
  induction n generalizing c k with
  | zero =>
    cases h
    rw [dir.move_zero]
    exact hD.zero _
  | succ n ih =>
    unfold Cursor.repeated at h
    cases hm : step? dir c with
    | none =>
      -- The repetition stops here, and no step counts.
      rw [hm] at h
      cases h
      rw [dir.move_zero]
      exact hD.zero _
    | some c' =>
      rw [hm] at h
      cases h
      rw [dir.move_succ]
      exact hD.add (hstep _ _ hm) (ih rfl)

/-- What adds up holds of moves in a direction if it holds of the steps in this direction. -/
theorem go (hD : AddsUp D) (hstep : dir.Ensures D) {m : Move} (h : c.go dir n = some (m, d)) :
    D m c d := by
  unfold Cursor.go at h
  split at h
  · exact nomatch h
  · rename_i k c' hr
    cases h
    exact hD.repeated hstep hr

end AddsUp

namespace Cursor

variable {c d : Cursor doc}

/-! ## The lists around a cursor -/

/-- A step to the side stays within the same lists. -/
theorem enclosing_next? (h : c.next? = some d) :
    doc.forest.enclosing d.pos = doc.forest.enclosing c.pos := by
  obtain ⟨s, hs, -, -, hd⟩ := exists_span_of_next? h
  rw [hd]
  exact doc.placed_forest.enclosing_of_start hs

theorem enclosing_previous? (h : c.previous? = some d) :
    doc.forest.enclosing d.pos = doc.forest.enclosing c.pos := by
  obtain ⟨s, hs, -, hd⟩ := exists_span_of_previous? h
  rw [hd]
  exact doc.placed_forest.enclosing_of_start hs

/-- A step inward leads into one more list. -/
theorem enclosing_enter? (hline : c.onCommentLine = false) (h : c.enter? = some d) :
    ∃ x, doc.forest.enclosing d.pos = doc.forest.enclosing c.pos ++ [x] := by
  obtain ⟨hopening, hfirst⟩ := firstChild?_of_enter? hline h
  obtain ⟨s, hs, hstart⟩ := Option.bind_eq_some_iff.mp hfirst
  have hmem := List.mem_of_mem_head? hs
  obtain ⟨x, hx, hc⟩ := exists_entry_of_onOpening hopening
  have hinside := doc.placed_forest.innermost?_opening_succ hx
  -- The first child starts on the level behind the delimiter, where the list is around, too.
  refine ⟨(x.extent, x.children), ?_⟩
  rw [pos_of_startOf? hmem hstart, doc.placed_forest.enclosing_of_start hmem, pos_inside hopening,
    ← hc]
  exact doc.placed_forest.enclosing_opening hinside

/-- A step outward leads out of the innermost list. -/
theorem enclosing_leave? (h : c.leave? = some d) :
    ∃ x, doc.forest.enclosing c.pos = doc.forest.enclosing d.pos ++ [x] := by
  obtain ⟨x, hx, rfl⟩ := Option.map_eq_some_iff.mp h
  have hlt := Forest.opening_lt_of_innermost? hx
  have hle := c.pos_le
  have hpos : (doc.cursorAt x.1.opening).pos = x.1.opening := Nat.min_eq_left (by omega)
  rw [hpos]
  exact ⟨x, doc.placed_forest.enclosing_opening hx⟩

/-! ## Depth -/

/-- The move says by how much the second cursor is deeper than the first one. -/
def Deepens (m : Move) (c d : Cursor doc) : Prop := (d.depth : Int) = c.depth + m.y

theorem addsUp_deepens : AddsUp (@Deepens doc) where
  zero c := (Int.add_zero _).symm
  add h h' := by
    unfold Deepens at h h' ⊢
    rw [Move.add_y]
    omega

/-- Without comment lines, each step changes the depth by what its unit move says. -/
theorem ensures_deepens (hlines : ∀ c : Cursor doc, c.onCommentLine = false) (dir : Direction) :
    dir.Ensures (@Deepens doc) := by
  intro c d h
  unfold Deepens depth Forest.depth
  cases dir with
  | forward =>
    rw [enclosing_next? h]
    exact (Int.add_zero _).symm
  | backward =>
    rw [enclosing_previous? h]
    exact (Int.add_zero _).symm
  | inward =>
    obtain ⟨x, hx⟩ := enclosing_enter? (hlines c) h
    rw [hx, List.length_append]
    rfl
  | outward =>
    obtain ⟨x, hx⟩ := enclosing_leave? h
    rw [hx, List.length_append]
    show ((doc.forest.enclosing d.pos).length : Int) =
      ((doc.forest.enclosing d.pos).length + 1 : Nat) + -1
    omega

/-! ## Places among siblings -/

/-- The cursor is where the expression with index `i` of its level starts. -/
def AtChild (c : Cursor doc) (i : Nat) : Prop := ∃ s ∈ c.level[i]?, c.pos = s.start

instance (c : Cursor doc) (i : Nat) : Decidable (c.AtChild i) :=
  inferInstanceAs (Decidable (∃ s ∈ c.level[i]?, c.pos = s.start))

theorem atChild_iff {i : Nat} : c.AtChild i ↔
    ∃ pre s post, c.level = pre ++ s :: post ∧ pre.length = i ∧ c.pos = s.start := by
  constructor
  · rintro ⟨s, hs, hc⟩
    obtain ⟨hi, rfl⟩ := List.getElem?_eq_some_iff.mp hs
    refine ⟨c.level.take i, _, c.level.drop (i + 1), ?_, ?_, hc⟩
    · rw [← List.drop_eq_getElem_cons hi, List.take_append_drop]
    · rw [List.length_take]
      omega
  · rintro ⟨pre, s, post, hlevel, rfl, hc⟩
    exact ⟨s, by simp [hlevel], hc⟩

/-- Where an expression of a level starts, the cursor is at the start of just that expression. -/
theorem atChild_of_level {pre post : List Span} {s : Span} (hlevel : c.level = pre ++ s :: post)
    (hd : d.pos = s.start) : d.AtChild pre.length := by
  have hs : s ∈ c.level := by simp [hlevel]
  rw [← level_of_start hs hd] at hlevel
  exact atChild_iff.mpr ⟨pre, s, post, hlevel, rfl, hd⟩

/-- Both cursors are within the same lists, and if the first one is at the start of an expression
    there, the second one is too, and the move counts how far it is from one to the other. -/
structure Sidesteps (m : Move) (c d : Cursor doc) : Prop where
  enclosing : doc.forest.enclosing d.pos = doc.forest.enclosing c.pos
  atChild : ∀ {i : Nat}, c.AtChild i → ∃ j : Nat, d.AtChild j ∧ m = ⟨(j : Int) - i, 0⟩

theorem addsUp_sidesteps : AddsUp (@Sidesteps doc) where
  zero c := ⟨rfl, fun {i} hi => ⟨i, hi, by simp [Move.zero]⟩⟩
  add h h' := by
    refine ⟨h'.enclosing.trans h.enclosing, fun {i} hi => ?_⟩
    obtain ⟨j, hj, rfl⟩ := h.atChild hi
    obtain ⟨k, hk, rfl⟩ := h'.atChild hj
    refine ⟨k, hk, ?_⟩
    ext
    · simp only [Move.add_x]
      omega
    · rfl

/-- A step forward goes from a child to the next one. -/
theorem ensures_sidesteps_forward : Direction.forward.Ensures (@Sidesteps doc) := by
  intro c d h
  replace h : c.next? = some d := h
  refine ⟨enclosing_next? h, fun {i} hi => ?_⟩
  obtain ⟨pre, s, post, hlevel, rfl, hc⟩ := atChild_iff.mp hi
  have hrow : Row doc.length (pre ++ s :: post) := hlevel ▸ c.row
  rw [next?_eq, hlevel, hc, hrow.find?_start_after] at h
  obtain ⟨t, ht, hstart⟩ := Option.bind_eq_some_iff.mp h
  obtain ⟨post, rfl⟩ := List.head?_eq_some_iff.mp ht
  -- The step leads to `t`, which comes right after `s`.
  have hd : d.pos = t.start := pos_of_startOf? (c := c) (by simp [hlevel]) hstart
  have hsplit : c.level = (pre ++ [s]) ++ t :: post := by simp [hlevel]
  refine ⟨_, atChild_of_level hsplit hd, ?_⟩
  ext
  · show (1 : Int) = ((pre ++ [s]).length : Nat) - pre.length
    rw [List.length_append, List.length_singleton]
    omega
  · rfl

/-- A step backward goes from a child to the one before it. -/
theorem ensures_sidesteps_backward : Direction.backward.Ensures (@Sidesteps doc) := by
  intro c d h
  replace h : c.previous? = some d := h
  refine ⟨enclosing_previous? h, fun {i} hi => ?_⟩
  obtain ⟨pre, s, post, hlevel, rfl, hc⟩ := atChild_iff.mp hi
  have hrow : Row doc.length (pre ++ s :: post) := hlevel ▸ c.row
  rw [previous?_eq, hlevel, hc, hrow.find?_start_before] at h
  obtain ⟨t, ht, rfl⟩ := Option.map_eq_some_iff.mp h
  obtain ⟨pre, rfl⟩ := List.getLast?_eq_some_iff.mp ht
  -- The step leads to `t`, which comes right before `s`.
  have hsplit : c.level = pre ++ t :: s :: post := by simp [hlevel]
  have hstop := c.row.stop_le t (by simp [hsplit])
  have hne := c.row.nonempty t (by simp [hsplit])
  refine ⟨_, atChild_of_level hsplit (Nat.min_eq_left (by omega)), ?_⟩
  ext
  · show (-1 : Int) = (pre.length : Nat) - ((pre ++ [t]).length : Nat)
    rw [List.length_append, List.length_singleton]
    omega
  · rfl

end Cursor

end SExprNav
