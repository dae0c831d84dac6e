import SExprNav.Proofs.Cursor.Tour
import SExprNav.Proofs.Traversal.Progress

/-!
# The depth-first walks visit all expressions

An action tours a row of cursors if it leads from each of them to the next one, and fails at the
last one. Where all lists are closed and none has quote marks in front, the walks in preorder and in
postorder tour all expressions, and the walks backward tour them in the opposite order. Unmatched
closing delimiters, comments, and quote marks before atoms and strings do not matter.

## Key results

- `Action.Follows.tours`: an action tours the row that its movement leads along
- `Action.Tours.inverse`: actions that tour a row in opposite orders undo each other
- `Standard.preorder_tours`, `Standard.postorder_tours`: the walks tour all expressions
-/

namespace SExprNav

variable {κ : Type} {doc : Document}

namespace Cursor

variable {f : Cursor doc → Option (Cursor doc)} {row : List (Cursor doc)} {c : Cursor doc}

/-- Where a movement leads from a place in its row. -/
theorem Along.getElem? {out : Option (Cursor doc)} (h : Along f row out) {i : Nat}
    (hi : row[i]? = some c) : f c = row[i + 1]?.or out := by
  induction row generalizing i with
  | nil => exact nomatch hi
  | cons d row ih =>
    cases i with
    | zero =>
      obtain rfl : d = c := Option.some.inj hi
      rw [h.1, List.getElem?_cons_succ, List.head?_eq_getElem?]
    | succ i =>
      rw [List.getElem?_cons_succ] at hi ⊢
      exact ih h.2 hi

/-- A path from the start of a row goes through all of it. -/
theorem Along.path (h : Along f (c :: row) none) {limit : Nat} (hlimit : row.length < limit) :
    path f limit c = (c :: row, true) := by
  induction row generalizing c limit with
  | nil =>
    obtain ⟨n, rfl⟩ := Nat.exists_eq_add_of_lt hlimit
    exact path_of_none h.1 _
  | cons d row ih =>
    obtain ⟨n, rfl⟩ := Nat.exists_eq_add_of_lt hlimit
    rw [path_of_some h.1, ih h.2 (by simp; omega)]

end Cursor

namespace Action

open Cursor (Along)

variable {x y : Action κ doc Executed} {f : Cursor doc → Option (Cursor doc)}
  {row : List (Cursor doc)} {c d : Cursor doc}

/-- The action leads from each cursor of the row to the next one, and fails at the last one. -/
structure Tours (x : Action κ doc Executed) (row : List (Cursor doc)) : Prop where
  next : ∀ {i c d}, row[i]? = some c → row[i + 1]? = some d → ∃ ms, x.Yields c (some ms) d
  last : ∀ {c}, row.getLast? = some c → x.Yields c none c

/-- An action tours the row that its movement leads along. -/
theorem Follows.tours (hx : x.Follows f) (h : Along f row none) : x.Tours row where
  next hc hd := hx.success (by rw [h.getElem? hc, hd]; rfl)
  last {c} hc := by
    rw [List.getLast?_eq_getElem?] at hc
    obtain ⟨hlt, -⟩ := List.getElem?_eq_some_iff.mp hc
    have hend : row[row.length - 1 + 1]? = none := List.getElem?_eq_none (by omega)
    exact hx.failure (by rw [h.getElem? hc, hend]; rfl)

/-- Made again and again from the start of the row, the action comes to all of it. -/
theorem Follows.walk_row (hx : x.Follows f) (h : Along f row none) (hc : row.head? = some c) :
    (x.walk row.length c).answer = .ok (row.map (·.pos), true) := by
  cases row with
  | nil => exact nomatch hc
  | cons d row =>
    obtain rfl : d = c := Option.some.inj hc
    have hpath : Cursor.path f (d :: row).length d = (d :: row, true) :=
      h.path (Nat.lt_succ_self _)
    rw [hx.walk, hpath]

namespace Tours

/-- In the row, the action leads to the next cursor only. -/
theorem exists_place (hx : x.Tours row) (hc : c ∈ row) {ms : List Move}
    (h : x.Yields c (some ms) d) : ∃ i, row[i]? = some c ∧ row[i + 1]? = some d := by
  obtain ⟨i, hi⟩ := List.mem_iff_getElem?.mp hc
  refine ⟨i, hi, ?_⟩
  cases hnext : row[i + 1]? with
  | some b =>
    obtain ⟨ns, hns⟩ := hx.next hi hnext
    rw [(h.unique hns).2]
  | none =>
    -- At the last cursor the action fails.
    have hlt := (List.getElem?_eq_some_iff.mp hi).1
    have hle := List.getElem?_eq_none_iff.mp hnext
    have hlast : row.getLast? = some c := by
      rw [List.getLast?_eq_getElem?, ← hi]
      congr 1
      omega
    exact nomatch (h.unique (hx.last hlast)).1

/-- If one action tours a row and another one tours it in the opposite order, what the first one
    does the second one undoes. -/
theorem undo (hx : x.Tours row) (hy : y.Tours row.reverse) (hc : c ∈ row) {ms : List Move}
    (h : x.Yields c (some ms) d) : ∃ ns, y.Yields d (some ns) c := by
  obtain ⟨i, hi, hnext⟩ := hx.exists_place hc h
  have hlt := (List.getElem?_eq_some_iff.mp hnext).1
  -- Counted from the other end, `d` comes right before `c`.
  have hd : row.reverse[row.length - 2 - i]? = some d := by
    rw [List.getElem?_reverse (by omega), ← hnext]
    congr 1
    omega
  have hc : row.reverse[row.length - 2 - i + 1]? = some c := by
    rw [List.getElem?_reverse (by omega), ← hi]
    congr 1
    omega
  exact hy.next hd hc

/-- Actions that tour a row in opposite orders are inverse to each other on it. -/
theorem inverse (hx : x.Tours row) (hy : y.Tours row.reverse) (hc : c ∈ row) (hd : d ∈ row) :
    (∃ ms, x.Yields c (some ms) d) ↔ ∃ ms, y.Yields d (some ms) c := by
  constructor
  · rintro ⟨ms, h⟩
    exact hx.undo hy hc h
  · rintro ⟨ms, h⟩
    rw [← row.reverse_reverse] at hx
    exact hy.undo hx (List.mem_reverse.mpr hd) h

end Tours

end Action

/-- The cursors at the starts of some expressions stand there. -/
theorem Document.map_pos_startOf {spans : List Span}
    (h : ∀ s ∈ spans, s ∈ doc.forest.preorder) :
    (spans.map doc.startOf).map (·.pos) = spans.map (·.start) := by
  rw [List.map_map]
  exact List.map_congr_left fun s hs => Document.pos_startOf (h s hs)

namespace Standard

/-- In a text where all lists are closed and none has quote marks in front, the walk in preorder
    leads from each expression to the next one in the order in which they start, and fails at the
    last one; the walk backward leads from each expression to the previous one, and fails at the
    first one. The two are inverse to each other, and come to each expression once. -/
theorem preorder_tours (meaning : κ → Action κ doc Bool) (hplain : doc.forest.Plain) :
    let row := (doc.forest.nodes none).map (·.span)
    let starts := row.map doc.startOf
    let forth := Standard.preorder.traversal.execute meaning
    let back := Standard.preorderBackward.traversal.execute meaning
    (row.Pairwise fun s t => s.start < t.start) ∧ starts.map (·.pos) = row.map (·.start) ∧
    forth.Tours starts ∧ back.Tours starts.reverse ∧
    (∀ c ∈ starts, ∀ d ∈ starts,
      (∃ ms, forth.Yields c (some ms) d) ↔ ∃ ms, back.Yields d (some ms) c) ∧
    (∀ c, starts.head? = some c →
      (forth.walk starts.length c).answer = .ok (row.map (·.start), true)) ∧
    (∀ c, starts.getLast? = some c →
      (back.walk starts.length c).answer = .ok ((row.map (·.start)).reverse, true)) := by
  intro row starts forth back
  have hrow : row = doc.forest.preorder := doc.forest.nodes_span none
  have hpos : starts.map (·.pos) = row.map (·.start) :=
    Document.map_pos_startOf fun s hs => hrow ▸ hs
  have hforth : forth.Follows Cursor.preorder? := follows_preorder meaning
  have hback : back.Follows Cursor.preorderBackward? := follows_preorderBackward meaning
  have halong : Cursor.Along Cursor.preorder? starts none := by
    have := doc.isRest_forest.along_preorder hplain
    rwa [← hrow] at this
  have halongBack : Cursor.Along Cursor.preorderBackward? starts.reverse none := by
    have := doc.isRest_forest.along_preorderBackward hplain
    rwa [← hrow] at this
  have htours := hforth.tours halong
  have htoursBack := hback.tours halongBack
  refine ⟨?_, hpos, htours, htoursBack, fun c hc d hd => htours.inverse htoursBack hc hd, ?_, ?_⟩
  · rw [hrow]
    exact doc.placed_forest.preorder_pairwise
  · intro c hc
    rw [hforth.walk_row halong hc, hpos]
  · intro c hc
    rw [← List.head?_reverse] at hc
    have hwalk := hback.walk_row halongBack hc
    rwa [List.length_reverse, List.map_reverse, hpos] at hwalk

/-- A list in a list, and after both a closing delimiter that closes nothing. In preorder, the last
    expression of the lists is followed by the quoted atom. -/
theorem preorder_tours_nested :
    let doc := Document.ofText .lisp
      ['(', 'a', ' ', '(', 'b', ')', ' ', 'd', ')', ')', ' ', '\'', 'e']
    let meaning : Empty → Action Empty doc Bool := Empty.elim
    doc.forest.Plain ∧
    ((doc.forest.nodes none).map (·.span)).map doc.startOf =
      [0, 1, 3, 4, 7, 11].map doc.cursorAt ∧
    (∃ ms, (Standard.preorder.traversal.execute meaning).Yields (doc.cursorAt 7) (some ms)
      (doc.cursorAt 11)) ∧
    (Standard.preorderBackward.traversal.execute meaning).Yields (doc.cursorAt 0) none
      (doc.cursorAt 0) := by
  intro doc meaning
  have hplain : doc.forest.Plain := by decide
  have hstarts : ((doc.forest.nodes none).map (·.span)).map doc.startOf =
      [0, 1, 3, 4, 7, 11].map doc.cursorAt := by decide
  obtain ⟨-, -, hforth, hback, -⟩ := preorder_tours meaning hplain
  rw [hstarts] at hforth hback
  exact ⟨hplain, hstarts, hforth.next (i := 4) rfl rfl, hback.last rfl⟩

/-- In a text where all lists are closed and none has quote marks in front, the walk in postorder
    leads from each expression to the next one in the order in which they end, and fails at the last
    one; the walk backward leads from each expression to the previous one, and fails at the first
    one. -/
theorem postorder_tours (meaning : κ → Action κ doc Bool) (hplain : doc.forest.Plain) :
    let row := doc.forest.postorder
    let starts := row.map doc.startOf
    let forth := Standard.postorder.traversal.execute meaning
    let back := Standard.postorderBackward.traversal.execute meaning
    row.Perm ((doc.forest.nodes none).map (·.span)) ∧ (row.Pairwise fun s t => s.stop < t.stop) ∧
    starts.map (·.pos) = row.map (·.start) ∧
    forth.Tours starts ∧ back.Tours starts.reverse := by
  intro row starts forth back
  have hperm : row.Perm doc.forest.preorder := doc.forest.postorder_perm_preorder
  have hclosed : ∀ e ∈ doc.forest.extents, e.closed = true := fun e he => (hplain e he).1
  have hforth : forth.Follows Cursor.postorder? := follows_postorder meaning
  have hback : back.Follows Cursor.postorderBackward? := follows_postorderBackward meaning
  refine ⟨?_, ?_, ?_, ?_, ?_⟩
  · rwa [doc.forest.nodes_span none]
  · exact doc.placed_forest.postorder_pairwise hclosed
  · exact Document.map_pos_startOf fun s hs => hperm.subset hs
  · exact hforth.tours (doc.isRest_forest.along_postorder hplain)
  · exact hback.tours (doc.isRest_forest.along_postorderBackward hplain)

/-- In postorder, a list is followed by what comes after it, and going backward by its last
    child. -/
theorem postorder_tours_nested :
    let doc := Document.ofText .lisp
      ['(', 'a', ' ', '(', 'b', ')', ' ', 'd', ')', ')', ' ', '\'', 'e']
    let meaning : Empty → Action Empty doc Bool := Empty.elim
    doc.forest.Plain ∧
    doc.forest.postorder.map doc.startOf = [1, 4, 3, 7, 0, 11].map doc.cursorAt ∧
    (∃ ms, (Standard.postorder.traversal.execute meaning).Yields (doc.cursorAt 0) (some ms)
      (doc.cursorAt 11)) ∧
    (∃ ms, (Standard.postorderBackward.traversal.execute meaning).Yields (doc.cursorAt 0) (some ms)
      (doc.cursorAt 7)) := by
  intro doc meaning
  have hplain : doc.forest.Plain := by decide
  have hstarts : doc.forest.postorder.map doc.startOf =
      [1, 4, 3, 7, 0, 11].map doc.cursorAt := by decide
  obtain ⟨-, -, -, hforth, hback⟩ := postorder_tours meaning hplain
  rw [hstarts] at hforth hback
  exact ⟨hplain, hstarts, hforth.next (i := 4) rfl rfl, hback.next (i := 1) rfl rfl⟩

end Standard

end SExprNav
