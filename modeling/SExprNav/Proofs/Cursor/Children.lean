import SExprNav.Proofs.Cursor.Relatives

/-!
# Empty lists

A list passes for empty where no step inward is possible from its opening delimiter. A list that
nothing closes cannot be skipped over, so a list passes for empty also if its first child is such a
list, and then it cannot be entered.

## Key results

- `Cursor.onEmptyList_of_opening`: a list passes for empty if nothing closes its first child
- `Document.holds_emptyList_iff`: which cursors are on what passes for an empty list, and where a
  step inward leads from the other lists
-/

namespace SExprNav

/-- If nothing closes the first expression of a row, it is the only one. -/
theorem Row.head?_unclosed_iff {length : Nat} {spans : List Span} (h : Row length spans) :
    (∀ s ∈ spans.head?, s.closed = false) ↔
      spans = [] ∨ ∃ s, spans = [s] ∧ s.closed = false := by
  constructor
  · intro hopen
    cases spans with
    | nil => exact .inl rfl
    | cons s post =>
      have hs := hopen s rfl
      have hrow : Row length ([] ++ s :: post) := h
      rw [hrow.post_eq_nil hs]
      exact .inr ⟨s, rfl, hs⟩
  · rintro (rfl | ⟨s, rfl, hs⟩)
    · exact nofun
    · rintro _ ⟨⟩
      exact hs

variable {doc : Document}

/-- A list passes for empty if nothing closes its first child, or if it has none. -/
theorem Cursor.onEmptyList_of_opening {c : Cursor doc} {x : Forest.Entry}
    (hx : x ∈ doc.forest.lists) (hc : x.extent.opening = c.pos) :
    c.onEmptyList = true ↔
      x.children.spans = [] ∨ ∃ s, x.children.spans = [s] ∧ s.closed = false := by
  have hopening := onOpening_of_opening (Forest.mem_extents_of_mem_entries hx) hc
  have hrow : Row doc.length x.children.spans := by
    rw [← level_inside hx hc]
    exact row _
  rw [onEmptyList_eq, hopening, firstChild?_of_opening hx hc, ← hrow.head?_unclosed_iff]
  cases x.children.spans.head? with
  | none => simp
  | some s => simp [Document.startOf?]

namespace Document

/-- A cursor is on what passes for an empty list exactly if it is on the opening delimiter of a list
    that has no children, or only one that nothing closes. A list with a first child is entered
    exactly if something closes that child. -/
theorem holds_emptyList_iff (doc : Document) :
    (∀ c : Cursor doc, Boundary.emptyList.holds c = true ↔
      c.onOpening = true ∧ ∃ x ∈ doc.forest.lists, x.extent.opening = c.pos ∧
        (x.children.spans = [] ∨ ∃ s, x.children.spans = [s] ∧ s.closed = false)) ∧
    ∀ x ∈ doc.forest.lists, ∀ s ∈ x.children.spans.head?,
      (doc.startOf s).pos = s.start ∧ (doc.cursorAt x.extent.opening).go .inward 1 =
        if s.closed then some (⟨0, 1⟩, doc.startOf s) else none := by
  constructor
  · intro c
    show c.onEmptyList = true ↔ _
    constructor
    · intro hempty
      have hopening : c.onOpening = true := by
        rw [Cursor.onEmptyList_eq, Bool.and_eq_true] at hempty
        exact hempty.1
      obtain ⟨x, hx, hc⟩ := Cursor.exists_entry_of_onOpening hopening
      exact ⟨hopening, x, hx, hc, (Cursor.onEmptyList_of_opening hx hc).mp hempty⟩
    · rintro ⟨-, x, hx, hc, hchildren⟩
      exact (Cursor.onEmptyList_of_opening hx hc).mpr hchildren
  · intro x hx s hs
    have hmem := List.mem_of_mem_head? hs
    refine ⟨(isLevel_children hx).pos_startOf hmem, ?_⟩
    rw [Cursor.go_one]
    show (Cursor.enter? _).map _ = _
    rw [Cursor.enter?_of_opening hx (Cursor.pos_opening hx).symm, Option.mem_def.mp hs,
      Option.bind_some]
    unfold startOf?
    split <;> rfl

/-- In `((`, the outer list passes for empty and is not entered, although the inner one is its
    child. -/
theorem emptyList_around_unclosed :
    let doc := Document.ofText .lisp ['(', '(']
    (¬ ∀ c : Cursor doc, Boundary.emptyList.holds c = true ↔ c.onOpening = true ∧
      ∃ x ∈ doc.forest.lists, x.extent.opening = c.pos ∧ x.children.spans = []) ∧
    ¬ ∀ x ∈ doc.forest.lists, ∀ s ∈ x.children.spans.head?,
      (doc.cursorAt x.extent.opening).go .inward 1 = some (⟨0, 1⟩, doc.startOf s) := by
  intro doc
  constructor
  · intro h
    have hempty : Boundary.emptyList.holds (doc.cursorAt 0) = true := by decide +kernel
    have hchild : ∀ x ∈ doc.forest.lists, x.extent.opening = 0 → x.children.spans ≠ [] := by decide
    obtain ⟨-, x, hx, hopening, hnone⟩ := (h _).mp hempty
    exact hchild x hx hopening hnone
  · intro h
    have hx : ⟨none, ⟨0, 0, 2, 2, false⟩, .list ⟨1, 1, 2, 2, false⟩ .nil .nil⟩ ∈ doc.forest.lists := by
      decide
    have hstuck : (doc.cursorAt 0).go .inward 1 = none := by decide +kernel
    have hmove := h _ hx ⟨1, 2, false, true⟩ (by decide)
    rw [hstuck] at hmove
    exact nomatch hmove

end Document

end SExprNav
