import SExprNav.Proofs.Action.Outcome
import SExprNav.Proofs.Cursor.Relatives
import SExprNav.Proofs.Cursor.Repetition

/-!
# Into lists and out again

A step inward leads from an opening delimiter to the first child of its list, and a step outward from
any child to the opening delimiter. So each step inward is undone by a step outward, also in lists
that nothing closes, and several steps are undone by as many. An opening delimiter with quote marks in
front of it is not where its list starts: a list in quote marks is entered and left at the delimiter.

## Key results

- `Cursor.exists_child_of_enter?`, `Document.leave?_child`: where the steps lead
- `Cursor.leave?_of_enter?`: a step outward undoes a step inward
- `Cursor.leave_undoes_enter`: moves outward undo moves inward
- `Document.enters_and_leaves`: without unclosed lists, every list with a child is entered and left
-/

namespace SExprNav

variable {κ : Type} {doc : Document} {s : Span}

/-- A step outward from a child leads to the opening delimiter of its list. -/
theorem Document.leave?_child {x : Forest.Entry} (hx : x ∈ doc.forest.lists)
    (hs : s ∈ x.children.spans) :
    (doc.startOf s).leave? = some (doc.cursorAt x.extent.opening) :=
  (isLevel_children hx).leave?_eq hs

namespace Cursor

variable {c d : Cursor doc} {n : Nat} {m : Move}

/-- A step inward leads from an opening delimiter to the first child of its list. -/
theorem exists_child_of_enter? (hline : c.onCommentLine = false) (h : c.enter? = some d) :
    ∃ x ∈ doc.forest.lists, doc.cursorAt x.extent.opening = c ∧
      ∃ s ∈ x.children.spans, d = doc.startOf s := by
  obtain ⟨hopening, hfirst⟩ := firstChild?_of_enter? hline h
  obtain ⟨x, hx, hc⟩ := exists_entry_of_onOpening hopening
  rw [firstChild?_of_opening hx hc] at hfirst
  obtain ⟨s, hs, hstart⟩ := Option.bind_eq_some_iff.mp hfirst
  have hd : d = doc.startOf s := by
    rw [Document.startOf?_of_closed (closed_of_startOf? hstart), Option.some.injEq] at hstart
    exact hstart.symm
  exact ⟨x, hx, by rw [hc, Document.cursorAt_pos], s, List.mem_of_mem_head? hs, hd⟩

/-- A step outward undoes a step inward, which does not lead to a comment line. -/
theorem leave?_of_enter? (hline : c.onCommentLine = false) (h : c.enter? = some d) :
    d.onCommentLine = false ∧ d.leave? = some c := by
  obtain ⟨x, hx, rfl, s, hs, rfl⟩ := exists_child_of_enter? hline h
  exact ⟨(Document.isLevel_children hx).not_onCommentLine hs, Document.leave?_child hx hs⟩

/-- What was achieved of a move inward is undone by a move outward with as many steps, unless the move
    inward starts on a comment line. -/
theorem leave_undoes_enter (hline : c.onCommentLine = false)
    (h : (Action.go .inward n : Action κ doc (Option Move)).Yields c (some m) d) :
    ∃ k : Nat, 0 < k ∧ k ≤ n ∧ m = ⟨0, k⟩ ∧
      (Action.go .outward k : Action κ doc (Option Move)).Yields d (some ⟨0, -k⟩) c := by
  obtain ⟨k, hk, hkn, rfl, htimes⟩ := times?_of_go (Action.yields_go_some.mp h)
  have hback : times? (step? .outward) k d = some c :=
    times?_undo (P := fun c => c.onCommentLine = false) leave?_of_enter? hline htimes
  have hin : Direction.inward.move k = ⟨0, k⟩ := Direction.move_eq .inward k
  have hout : Direction.outward.move k = ⟨0, -k⟩ := Direction.move_eq .outward k
  exact ⟨k, hk, hkn, hin, Action.yields_go_some.mpr (hout ▸ go_of_times? hk hback)⟩

/-- In `( ;c`, continued by ` (('a)) b` on the next line, three of five steps inward are possible and
    undone by three steps outward. -/
theorem leave_undoes_enter_unclosed :
    let doc := Document.ofText .lisp
      ['(', ' ', ';', 'c', '\n', ' ', '(', '(', '\'', 'a', ')', ')', ' ', 'b']
    let inward : Action Unit doc (Option Move) := Action.go .inward 5
    let outward : Action Unit doc (Option Move) := Action.go .outward 3
    (doc.cursorAt 0).onCommentLine = false ∧
      inward.Yields (doc.cursorAt 0) (some ⟨0, 3⟩) (doc.cursorAt 8) ∧
      outward.Yields (doc.cursorAt 8) (some ⟨0, -3⟩) (doc.cursorAt 0) := by
  intro doc inward outward
  have hline : (doc.cursorAt 0).onCommentLine = false := by decide +kernel
  have hinward : inward.Yields (doc.cursorAt 0) (some ⟨0, 3⟩) (doc.cursorAt 8) :=
    Action.yields_go_some.mpr (by decide +kernel)
  obtain ⟨k, -, -, hmove, houtward⟩ := leave_undoes_enter hline hinward
  have hk : k = 3 := by
    have hy := congrArg Move.y hmove
    simp only at hy
    omega
  subst hk
  exact ⟨hline, hinward, houtward⟩

end Cursor

namespace Document

/-- If all lists are closed, a step inward from the opening delimiter of a list with a child leads to
    the start of the first one, and a step outward leads back. Without quote marks, the opening
    delimiter is where the list starts. -/
theorem enters_and_leaves (hclosed : ∀ e ∈ doc.forest.extents, e.closed = true) :
    ∀ x ∈ doc.forest.lists, ∀ s ∈ x.children.spans.head?,
      (doc.cursorAt x.extent.opening).pos = x.extent.opening ∧ (doc.startOf s).pos = s.start ∧
      (Action.go .inward 1 : Action κ doc (Option Move)).Yields
        (doc.cursorAt x.extent.opening) (some ⟨0, 1⟩) (doc.startOf s) ∧
      (Action.go .outward 1 : Action κ doc (Option Move)).Yields
        (doc.startOf s) (some ⟨0, -1⟩) (doc.cursorAt x.extent.opening) ∧
      (x.extent.start = x.extent.opening →
        doc.startOf x.extent.span = doc.cursorAt x.extent.opening) := by
  intro x hx s hs
  have hmem := List.mem_of_mem_head? hs
  have hlevel := isLevel_children hx
  have hpos := Cursor.pos_opening hx
  have henter : (doc.cursorAt x.extent.opening).enter? = some (doc.startOf s) := by
    rw [Cursor.enter?_of_opening hx hpos.symm, Option.mem_def.mp hs, Option.bind_some]
    exact startOf?_of_closed (hlevel.closed hclosed hmem)
  have hin : (doc.cursorAt x.extent.opening).go .inward 1 = some (⟨0, 1⟩, doc.startOf s) := by
    rw [Cursor.go_one]
    show (Cursor.enter? _).map _ = _
    rw [henter]
    rfl
  have hout : (doc.startOf s).go .outward 1 =
      some (⟨0, -1⟩, doc.cursorAt x.extent.opening) := by
    rw [Cursor.go_one]
    show (Cursor.leave? _).map _ = _
    rw [leave?_child hx hmem]
    rfl
  refine ⟨hpos, hlevel.pos_startOf hmem, Action.yields_go_some.mpr hin,
    Action.yields_go_some.mpr hout, fun hplain => ?_⟩
  show doc.cursorAt x.extent.start = _
  rw [hplain]

/-- In `(a '( b))`, the outer list is entered and left at its start, and the inner one at its opening
    delimiter behind the quote mark. -/
theorem enters_and_leaves_nested :
    let doc := Document.ofText .lisp ['(', 'a', ' ', '\'', '(', ' ', 'b', ')', ')']
    let inward : Action Unit doc (Option Move) := Action.go .inward 1
    let outward : Action Unit doc (Option Move) := Action.go .outward 1
    (∀ e ∈ doc.forest.extents, e.closed = true) ∧
      inward.Yields (doc.cursorAt 0) (some ⟨0, 1⟩) (doc.cursorAt 1) ∧
      outward.Yields (doc.cursorAt 1) (some ⟨0, -1⟩) (doc.startOf ⟨0, 9, true, true⟩) ∧
      inward.Yields (doc.cursorAt 4) (some ⟨0, 1⟩) (doc.cursorAt 6) ∧
      outward.Yields (doc.cursorAt 6) (some ⟨0, -1⟩) (doc.cursorAt 4) := by
  intro doc inward outward
  have hclosed : ∀ e ∈ doc.forest.extents, e.closed = true := by decide
  have houter : ⟨none, ⟨0, 0, 8, 9, true⟩,
      .leaf 1 2 (.list ⟨3, 4, 7, 8, true⟩ (.leaf 6 7 .nil) .nil)⟩ ∈ doc.forest.lists := by decide
  have hinner : ⟨some ⟨0, 0, 8, 9, true⟩, ⟨3, 4, 7, 8, true⟩, .leaf 6 7 .nil⟩ ∈ doc.forest.lists := by
    decide
  obtain ⟨-, -, henter, hleave, hstart⟩ :=
    enters_and_leaves hclosed _ houter ⟨1, 2, true, false⟩ rfl
  obtain ⟨-, -, henter', hleave', -⟩ :=
    enters_and_leaves hclosed _ hinner ⟨6, 7, true, false⟩ rfl
  exact ⟨hclosed, henter, (hstart rfl).symm ▸ hleave, henter', hleave'⟩

/-- In `'(a)`, there is no step inward from where the list starts, and the step outward from its child
    does not lead there. -/
theorem not_entered_at_quote :
    let doc := Document.ofText .lisp ['\'', '(', 'a', ')']
    let inward : Action Unit doc (Option Move) := Action.go .inward 1
    let outward : Action Unit doc (Option Move) := Action.go .outward 1
    (∀ e ∈ doc.forest.extents, e.closed = true) ∧
    (¬ ∀ x ∈ doc.forest.lists, ∀ s ∈ x.children.spans.head?,
      inward.Yields (doc.startOf x.extent.span) (some ⟨0, 1⟩) (doc.startOf s)) ∧
    ¬ ∀ x ∈ doc.forest.lists, ∀ s ∈ x.children.spans.head?,
      outward.Yields (doc.startOf s) (some ⟨0, -1⟩) (doc.startOf x.extent.span) := by
  intro doc inward outward
  have hx : ⟨none, ⟨0, 1, 3, 4, true⟩, .leaf 2 3 .nil⟩ ∈ doc.forest.lists := by decide
  refine ⟨by decide, fun h => ?_, fun h => ?_⟩
  · have hgo := Action.yields_go_some.mp (h _ hx ⟨2, 3, true, false⟩ rfl)
    have hstuck : (doc.cursorAt 0).go .inward 1 = none := by decide +kernel
    exact nomatch hstuck.symm.trans hgo
  · have hgo := Action.yields_go_some.mp (h _ hx ⟨2, 3, true, false⟩ rfl)
    have hdelimiter : (doc.cursorAt 2).go .outward 1 = some (⟨0, -1⟩, doc.cursorAt 1) := by
      decide +kernel
    have heq : doc.cursorAt 1 = doc.cursorAt 0 :=
      congrArg Prod.snd (Option.some.inj (hdelimiter.symm.trans hgo))
    exact nomatch congrArg Cursor.pos heq

end Document

end SExprNav
