import SExprNav.Proofs.Cursor.Repetition
import SExprNav.Proofs.Forest.Chain
import SExprNav.Proofs.Traversal.Movement
import SExprNav.Proofs.Traversal.Rollback

/-!
# Where moves outward lead

Steps outward lead from anywhere to the opening delimiters of the lists around the cursor, from the
inside out: where the innermost list opens, all the others are around still. So what is achieved of a
move outward is told by the number of lists around the cursor. To climb is to leave a list, but not
to the top level, so it takes two of them.

## Key results

- `Document.listsAround_pairwise`: the lists around a position are nested
- `Cursor.along_leave?`: the row along which steps outward lead
- `Standard.yields_climb_some`: when climbing succeeds
- `Cursor.leave_counts_lists`: what is achieved of a move outward, and where it leads
-/

namespace SExprNav

variable {κ : Type} {doc : Document}

namespace Document

/-- The lists around a position, from the outside in. -/
def listsAround (doc : Document) (p : Nat) : List Extent :=
  (doc.forest.lists.map (·.extent)).filter (·.encloses p)

theorem listsAround_eq (doc : Document) (p : Nat) :
    doc.listsAround p = (doc.forest.enclosing p).map (·.1) := by
  rw [listsAround, ← Forest.extents_eq, doc.placed_forest.filter_encloses p]

theorem length_listsAround (doc : Document) (p : Nat) :
    (doc.listsAround p).length = doc.nesting p := by
  rw [listsAround_eq, List.length_map, ← depth_eq_nesting, Forest.depth]

/-- Each list around a position opens in the ones before it and lies inside them. -/
theorem listsAround_pairwise (doc : Document) (p : Nat) :
    (doc.listsAround p).Pairwise fun x y => x.opening < y.opening ∧ y.Within x := by
  apply List.Pairwise.and
  · rw [listsAround, ← Forest.extents_eq]
    exact doc.placed_forest.extents_pairwise.filter _
  · rw [listsAround_eq, List.pairwise_map]
    exact doc.placed_forest.enclosing_pairwise p

theorem pos_opening_around {p : Nat} {e : Extent} (he : e ∈ doc.listsAround p) :
    (doc.cursorAt e.opening).pos = e.opening := by
  obtain ⟨hmem, -⟩ := List.mem_filter.mp he
  rw [← Forest.extents_eq] at hmem
  have hb := doc.placed_forest.extents_bounds e hmem
  exact Nat.min_eq_left (by omega)

/-- Where the innermost list around a position opens, the others are around. -/
theorem listsAround_opening {p : Nat} {e : Extent} {rest : List Extent}
    (h : (doc.listsAround p).reverse = e :: rest) :
    (doc.listsAround (doc.cursorAt e.opening).pos).reverse = rest := by
  have he : e ∈ doc.listsAround p := List.mem_reverse.mp (h ▸ List.mem_cons_self)
  rw [pos_opening_around he]
  rw [listsAround_eq] at h ⊢
  -- The innermost list is the last one, and the others are around where it opens.
  have hlast : ((doc.forest.enclosing p).map (·.1)).getLast? = some e := by
    rw [← List.head?_reverse, h]
    rfl
  obtain ⟨x, hx, rfl⟩ := Option.map_eq_some_iff.mp (List.getLast?_map ▸ hlast)
  rw [doc.placed_forest.enclosing_opening hx] at h
  simpa using h

end Document

namespace Cursor

variable {c d : Cursor doc}

/-- A step outward leads to the opening delimiter of the innermost list around the cursor. -/
theorem leave?_eq_getLast? (c : Cursor doc) :
    c.leave? = (doc.listsAround c.pos).getLast?.map fun e => doc.cursorAt e.opening := by
  rw [Document.listsAround_eq, List.getLast?_map, Option.map_map]
  rfl

/-- Steps outward lead along the lists around the cursor, from the inside out. -/
theorem along_leave? (c : Cursor doc) :
    Along leave? (c :: (doc.listsAround c.pos).reverse.map fun e => doc.cursorAt e.opening) none := by
  apply along_map fun c => (doc.listsAround c.pos).reverse
  · intro c
    rw [leave?_eq_getLast?, List.head?_reverse]
  · exact Document.listsAround_opening

/-- At the top level there is no list around the cursor. -/
theorem holds_top_iff : Boundary.top.holds c = true ↔ doc.nesting c.pos = 0 := by
  rw [Boundary.holds, Option.isNone_iff_eq_none, leave?_eq_getLast?, Option.map_eq_none_iff,
    List.getLast?_eq_none_iff, ← List.length_eq_zero_iff, Document.length_listsAround]

/-- A step outward leaves one list. -/
theorem nesting_leave? (h : c.leave? = some d) : doc.nesting c.pos = doc.nesting d.pos + 1 := by
  rw [leave?_eq_getLast?] at h
  obtain ⟨e, he, rfl⟩ := Option.map_eq_some_iff.mp h
  obtain ⟨rest, hrest⟩ := List.head?_eq_some_iff.mp (List.head?_reverse ▸ he)
  rw [← Document.length_listsAround, ← Document.length_listsAround, ← List.length_reverse, hrest,
    ← Document.listsAround_opening hrest, List.length_cons, List.length_reverse]

end Cursor

/-! ## Climbing -/

namespace Standard

variable {meaning : κ → Action κ doc Bool} {c d : Cursor doc} {ms : List Move}

/-- To climb is to leave a list from within another one. -/
theorem yields_climb_some : (Standard.climb.traversal.execute meaning).Yields c (some ms) d ↔
    c.leave? = some d ∧ doc.nesting d.pos ≠ 0 ∧ ms = [⟨0, -1⟩] := by
  rw [traversal, Traversal.yields_execute_some, Traversal.perform, Action.yields_guarded_some]
  constructor
  · rintro ⟨c₁, c₂, hbefore, hstep, hafter⟩
    obtain ⟨-, rfl⟩ := Action.yields_pure.mp hbefore
    obtain ⟨htop, rfl⟩ := Action.yields_ask.mp hafter
    obtain ⟨hleave, rfl⟩ := Traversal.yields_step_some.mp hstep
    refine ⟨hleave, fun h => ?_, rfl⟩
    rw [Cursor.holds_top_iff.mpr h] at htop
    cases htop
  · rintro ⟨hleave, hnesting, rfl⟩
    have htop := mt Cursor.holds_top_iff.mp hnesting
    refine ⟨c, d, Action.yields_pure.mpr ⟨rfl, rfl⟩, Traversal.yields_step_some.mpr ⟨hleave, rfl⟩,
      Action.yields_ask.mpr ⟨?_, rfl⟩⟩
    simpa using htop

/-- Climbing succeeds within two lists, and leads to where the inner one opens. -/
theorem climb_cases (meaning : κ → Action κ doc Bool) (c : Cursor doc) :
    let climb := Standard.climb.traversal.execute meaning
    if 2 ≤ doc.nesting c.pos then
      ∃ x, (doc.listsAround c.pos).getLast? = some x ∧
        climb.Yields c (some [⟨0, -1⟩]) (doc.cursorAt x.opening)
    else climb.Yields c none c := by
  intro climb
  have hleave := c.leave?_eq_getLast?
  split
  · rename_i htwo
    cases hx : (doc.listsAround c.pos).getLast? with
    | none =>
      -- There are two lists around the cursor, so that one of them is the last.
      rw [List.getLast?_eq_none_iff, ← List.length_eq_zero_iff, Document.length_listsAround] at hx
      omega
    | some x =>
      rw [hx, Option.map_some] at hleave
      have hnesting := Cursor.nesting_leave? hleave
      exact ⟨x, rfl, yields_climb_some.mpr ⟨hleave, by omega, rfl⟩⟩
  · rename_i htwo
    apply Traversal.yields_none_of_no_success
    · intro k hk
      simp [traversal, Traversal.conditions, Traversal.step] at hk
    · -- A step outward from within one list leads to the top level.
      intro ms d h
      obtain ⟨hd, hne, -⟩ := yields_climb_some.mp h
      have hnesting := Cursor.nesting_leave? hd
      omega

end Standard

/-- A move outward achieves as many of its steps as there are lists around the cursor, and leads to
    the opening delimiter of the list with this number, counted from the innermost one. The cursor is
    at the top level if there is no list around it. Climbing takes two lists, and leads to where the
    innermost one opens. -/
theorem Cursor.leave_counts_lists (meaning : κ → Action κ doc Bool) (c : Cursor doc) :
    let around := doc.listsAround c.pos
    let climb := Standard.climb.traversal.execute meaning
    (around.length = doc.nesting c.pos ∧
      around.Pairwise fun x y => x.opening < y.opening ∧ y.Within x) ∧
    (∀ n,
      let k := min n (doc.nesting c.pos)
      let exit : Action κ doc (Option Move) := Action.go .outward n
      if k = 0 then exit.Yields c none c
      else ∃ x, around.reverse[k - 1]? = some x ∧ (doc.cursorAt x.opening).pos = x.opening ∧
        exit.Yields c (some ⟨0, -k⟩) (doc.cursorAt x.opening)) ∧
    (Boundary.top.holds c = true ↔ doc.nesting c.pos = 0) ∧
    (if 2 ≤ doc.nesting c.pos then
      ∃ x, around.getLast? = some x ∧ climb.Yields c (some [⟨0, -1⟩]) (doc.cursorAt x.opening)
    else climb.Yields c none c) := by
  intro around climb
  have hlength := doc.length_listsAround c.pos
  refine ⟨⟨hlength, doc.listsAround_pairwise c.pos⟩, fun n => ?_, holds_top_iff,
    Standard.climb_cases meaning c⟩
  intro k exit
  have hgo := @Along.yields_go_map doc c .outward κ _ _ _ c.along_leave? n
  rw [List.length_reverse, hlength] at hgo
  by_cases hk : k = 0
  · rw [if_pos hk] at hgo ⊢
    exact hgo
  · rw [if_neg hk] at hgo ⊢
    obtain ⟨x, hx, hyields⟩ := hgo
    have hmove : Direction.outward.move k = ⟨0, -k⟩ := Direction.move_eq .outward k
    have hmem : x ∈ around := List.mem_reverse.mp (List.mem_of_getElem? hx)
    exact ⟨x, hx, Document.pos_opening_around hmem, hmove ▸ hyields⟩

end SExprNav
