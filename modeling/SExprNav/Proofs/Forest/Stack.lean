import SExprNav.Cursor
import SExprNav.Proofs.Forest.Chain

/-!
# Delimiters on a stack

Reading the delimiters from the left, with the opening ones that wait for their partners on a stack,
leaves those of the lists around the position where the reading ends. So what is found by going down
the forest, which is read from the right, is what a reader from the left knows at each position, in
balanced texts and in others.

## Key results

- `Segments.stackAt_enclose`: an opening delimiter goes on the stack where it is read
- `Segments.foldl_stackAfter`: the stack is told by what was read from the right
- `Forest.waiting_ofTokens`: what waits on the stack are the lists around the position
- `Document.lists_around_wait`: the same for the lists and the level of a cursor
-/

namespace SExprNav

/-- The opening delimiters of the lists around a position, from the outside in. -/
def Forest.openingsAround (p : Nat) (f : Forest) : List Nat := (f.enclosing p).map (·.1.opening)

namespace Token

/-- The stack after one more token. An opening delimiter goes on top, and a closing one takes the top
    away, if there is one. -/
def stackAfter (stack : List Nat) (t : Token) : List Nat :=
  match t.kind with
  | .opener => stack ++ [t.start]
  | .closer => stack.dropLast
  | _ => stack

/-- The opening delimiters that wait for their partners after some tokens, the top being the last
    one. -/
def waiting (ts : List Token) : List Nat := ts.foldl stackAfter []

end Token

namespace Forest

variable {f g : Forest} {p : Nat}

theorem enclosing_append_of_left (h : f.enclosing p = []) :
    (f ++ g).enclosing p = g.enclosing p := by
  induction f with
  | nil => rfl
  | leaf start stop next ih => exact ih h
  | list e children next _ ih =>
    rw [enclosing] at h
    rw [list_append, enclosing]
    split at h
    · cases h
    · rename_i hp
      rw [if_neg hp, ih h]

theorem enclosing_append_of_right (h : g.enclosing p = []) :
    (f ++ g).enclosing p = f.enclosing p := by
  induction f with
  | nil => exact h
  | leaf start stop next ih => exact ih
  | list e children next _ ih => rw [list_append, enclosing, enclosing, ih]

end Forest

namespace Segments

/-- What reading up to position `p` leaves on a stack: the lists around the position go on top, and
    each closing delimiter before it without a partner takes the top away. -/
def stackAt (p : Nat) : (stack : List Nat) → Segments → List Nat
  | stack, .last f => stack ++ f.openingsAround p
  | stack, .cut f closer rest =>
    if p ≤ closer.start then stack ++ f.openingsAround p else stackAt p stack.dropLast rest

variable {hi lo p : Nat} {s : Segments} {stack : List Nat}

theorem stackAt_addLeaf (start stop : Nat) :
    (s.addLeaf start stop).stackAt p stack = s.stackAt p stack := by
  cases s <;> rfl

/-- Nothing goes on the stack where reading has not yet started. -/
theorem stackAt_of_le (h : s.Placed hi lo) (hp : p ≤ lo) : s.stackAt p stack = stack := by
  have hnone : ∀ {f : Forest} {hi : Nat}, f.Placed lo hi → stack ++ f.openingsAround p = stack := by
    intro f hi hf
    rw [Forest.openingsAround, hf.enclosing_eq_nil hp, List.map_nil, List.append_nil]
  cases s with
  | last f => exact hnone h
  | cut f closer rest =>
    have hle := h.1.le
    rw [stackAt, if_pos (by omega), hnone h.1]

section List

variable {e : Extent} {children : Forest}

theorem stackAt_addList_of_not (hp : ¬ e.encloses p = true) :
    (s.addList e children).stackAt p stack = s.stackAt p stack := by
  cases s with
  | last f => rw [addList, stackAt, stackAt, Forest.openingsAround, Forest.enclosing, if_neg hp]; rfl
  | cut f closer rest =>
    rw [addList, stackAt, stackAt, Forest.openingsAround, Forest.enclosing, if_neg hp]
    rfl

theorem stackAt_addList_of_encloses (hs : s.Placed hi e.stop) (hstop : e.closing ≤ e.stop)
    (hp : e.encloses p = true) :
    (s.addList e children).stackAt p stack =
      stack ++ e.opening :: children.openingsAround p := by
  have haround : ∀ next, (Forest.list e children next).openingsAround p =
      e.opening :: children.openingsAround p := by
    intro next
    rw [Forest.openingsAround, Forest.enclosing, if_pos hp]
    rfl
  have hle := (Extent.encloses_iff.mp hp).2
  cases s with
  | last f => rw [addList, stackAt, haround]
  | cut f closer rest =>
    -- The list ends before the next closing delimiter without a partner.
    have hf := hs.1.le
    rw [addList, stackAt, if_pos (by omega), haround]

end List

/-- An opening delimiter goes on the stack where it is read. -/
theorem stackAt_enclose {start opening : Nat} (h : s.Placed hi (opening + 1)) (hp : p ≤ hi) :
    (s.enclose hi start opening).stackAt p stack =
      s.stackAt p (if opening < p then stack ++ [opening] else stack) := by
  by_cases hopening : opening < p
  · rw [if_pos hopening]
    cases s with
    | last f =>
      have henc : (⟨start, opening, hi, hi, false⟩ : Extent).encloses p = true :=
        Extent.encloses_iff.mpr ⟨hopening, hp⟩
      rw [enclose, stackAt, stackAt, Forest.openingsAround, Forest.enclosing, if_pos henc,
        List.append_assoc]
      rfl
    | cut f closer rest =>
      obtain ⟨-, -, hstop, hrest⟩ := h
      rw [enclose, stackAt]
      by_cases hclosing : p ≤ closer.start
      · have henc : (⟨start, opening, closer.start, closer.stop, true⟩ : Extent).encloses p = true :=
          Extent.encloses_iff.mpr ⟨hopening, hclosing⟩
        rw [if_pos hclosing, stackAt_addList_of_encloses hrest (by dsimp only; omega) henc,
          List.append_assoc]
        rfl
      · -- The delimiter went on the stack and its partner took it away.
        have hout : ¬ (⟨start, opening, closer.start, closer.stop, true⟩ : Extent).encloses p = true :=
          fun henc => hclosing (Extent.encloses_iff.mp henc).2
        rw [if_neg hclosing, stackAt_addList_of_not hout, List.dropLast_concat]
  · have hout : ∀ {closing stop closed},
        ¬ (⟨start, opening, closing, stop, closed⟩ : Extent).encloses p = true :=
      fun henc => hopening (Extent.encloses_iff.mp henc).1
    rw [if_neg hopening, stackAt_of_le h (by omega)]
    cases s with
    | last f =>
      rw [enclose, stackAt, Forest.openingsAround, Forest.enclosing, if_neg hout]
      exact List.append_nil stack
    | cut f closer rest =>
      obtain ⟨hf, -, hstop, hrest⟩ := h
      have hle := hf.le
      rw [enclose, stackAt_addList_of_not hout, stackAt_of_le hrest (by omega)]

/-- What reading some tokens from the left leaves on a stack is told by what was read from them from
    the right. -/
theorem foldl_stackAfter {ts : List Token} (h : Token.Laid hi lo ts) (hp : p ≤ hi)
    (mark : Option Nat) (stack : List Nat) :
    (ts.filter (·.start < p)).foldl Token.stackAfter stack = (ofTokens hi mark ts).stackAt p stack := by
  induction ts generalizing lo mark stack with
  | nil => exact (List.append_nil stack).symm
  | cons t ts ih =>
    obtain ⟨-, -, hone, hrest⟩ := h
    have hafter : (ofTokens hi none ts).Placed hi t.stop :=
      placed_ofTokens hrest (Nat.le_refl _) nofun
    have hstep : ((t :: ts).filter (·.start < p)).foldl Token.stackAfter stack =
        (ts.filter (·.start < p)).foldl Token.stackAfter
          (if t.start < p then Token.stackAfter stack t else stack) := by
      rw [List.filter_cons]
      by_cases hlt : t.start < p
      · rw [if_pos (decide_eq_true hlt), if_pos hlt, List.foldl_cons]
      · rw [if_neg (by simpa using hlt), if_neg hlt]
    rw [hstep]
    unfold ofTokens
    cases hk : t.kind with
    | comment | quote => simpa only [Token.stackAfter, hk, ite_self] using ih hrest _ stack
    | atom | string =>
      simpa only [Token.stackAfter, hk, ite_self, stackAt_addLeaf] using ih hrest none stack
    | opener =>
      have hstop := hone (.inl hk)
      show _ = ((ofTokens hi none ts).enclose hi (mark.getD t.start) t.start).stackAt p stack
      rw [stackAt_enclose (hstop ▸ hafter) hp, ih hrest none]
      simp only [Token.stackAfter, hk]
    | closer =>
      have hstop := hone (.inr hk)
      rw [ih hrest none, stackAt]
      by_cases hlt : t.start < p
      · rw [if_pos hlt, if_neg (by omega)]
        simp only [Token.stackAfter, hk]
      · -- Reading stops before this token, and so before all those after it.
        rw [if_neg hlt, if_pos (by omega), stackAt_of_le hafter (by omega)]
        exact (List.append_nil stack).symm

/-- On an empty stack, closing delimiters without a partner take nothing away. -/
theorem stackAt_nil (h : s.Placed hi lo) : s.stackAt p [] = s.join.openingsAround p := by
  induction s generalizing lo with
  | last f => exact List.nil_append _
  | cut f closer rest ih =>
    obtain ⟨hf, -, hstop, hrest⟩ := h
    have hjoin := placed_join hrest
    by_cases hp : p ≤ closer.start
    · have hnone : rest.join.enclosing p = [] := hjoin.enclosing_eq_nil (by omega)
      rw [stackAt, if_pos hp, List.nil_append, join, Forest.openingsAround, Forest.openingsAround,
        Forest.enclosing_append_of_right hnone]
    · have hnone : f.enclosing p = [] := hf.enclosing_eq_nil_of_lt (by omega)
      rw [stackAt, if_neg hp, join, Forest.openingsAround, Forest.enclosing_append_of_left hnone]
      exact ih hrest

end Segments

/-- What waits on the stack at a position are the opening delimiters of the lists around it. -/
theorem Forest.waiting_ofTokens {length p : Nat} {ts : List Token} (h : Token.Laid length 0 ts)
    (hp : p ≤ length) :
    Token.waiting (ts.filter (·.start < p)) = (ofTokens length ts).openingsAround p := by
  have hplaced : (Segments.ofTokens length none ts).Placed length 0 :=
    Segments.placed_ofTokens h (Nat.le_refl 0) nofun
  rw [Token.waiting, Segments.foldl_stackAfter h hp none, Segments.stackAt_nil hplaced, ofTokens]

namespace Document

variable {doc : Document}

/-- The list that opens at a position, with its children. -/
def listAt? (doc : Document) (p : Nat) : Option (Extent × Forest) :=
  (doc.forest.lists.find? fun x => decide (x.extent.opening = p)).map fun x => (x.extent, x.children)

theorem listAt?_opening {x : Forest.Entry} (hx : x ∈ doc.forest.lists) :
    doc.listAt? x.extent.opening = some (x.extent, x.children) := by
  have hnodup : (doc.forest.lists.map (·.extent.opening)).Nodup := by
    rw [List.Nodup, List.pairwise_map]
    exact doc.forest_represents.ordered.imp Nat.ne_of_lt
  unfold listAt?
  cases hfind : doc.forest.lists.find? fun y => decide (y.extent.opening = x.extent.opening) with
  | none =>
    have := List.find?_eq_none.mp hfind x hx
    simp at this
  | some y =>
    have hopening : y.extent.opening = x.extent.opening := by simpa using List.find?_some hfind
    have hy := List.mem_of_find?_eq_some hfind
    rw [List.inj_on_of_nodup_map hnodup hy hx hopening]
    rfl

/-- The innermost list around a position is the one that opens last. -/
theorem innermost?_eq_listAt? (doc : Document) (p : Nat) :
    doc.forest.innermost? p = (doc.forest.openingsAround p).getLast?.bind doc.listAt? := by
  rw [Forest.openingsAround, List.getLast?_map]
  show doc.forest.innermost? p = ((doc.forest.innermost? p).map _).bind _
  cases h : doc.forest.innermost? p with
  | none => rfl
  | some x =>
    obtain ⟨y, hy, hextent, hchildren⟩ :=
      Forest.entry_of_mem_enclosing (List.mem_of_getLast? h) none
    rw [Option.map_some, Option.bind_some, ← hextent, listAt?_opening hy, hextent, hchildren]

/-- At each position, the opening delimiters that wait for their partners, after the delimiters
    before the position are put on a stack and taken away again, are those of the lists around the
    position, from the outside in. The level of the position is that of the list on top of the stack,
    or the top level if the stack is empty. The list lies within all lists around the position. -/
theorem lists_around_wait (doc : Document) (c : Cursor doc) :
    let stack := Token.waiting (doc.tokens.filter (·.start < c.pos))
    stack = (doc.forest.lists.filter (·.extent.encloses c.pos)).map (·.extent.opening) ∧
    doc.forest.innermost? c.pos = stack.getLast?.bind doc.listAt? ∧
    doc.forest.level c.pos = ((stack.getLast?.bind doc.listAt?).map (·.2)).getD doc.forest ∧
    ∀ x ∈ doc.forest.lists, x.extent.encloses c.pos = true →
      ∃ y ∈ doc.forest.innermost? c.pos, y.1.Within x.extent := by
  intro stack
  have hstack : stack = doc.forest.openingsAround c.pos := by
    rw [doc.forest_eq_ofTokens]
    exact Forest.waiting_ofTokens doc.laid_tokens c.pos_le
  have hinnermost : doc.forest.innermost? c.pos = stack.getLast?.bind doc.listAt? := by
    rw [hstack]
    exact doc.innermost?_eq_listAt? c.pos
  have haround := doc.filter_lists_encloses c.pos
  refine ⟨?_, hinnermost, ?_, fun x hx hp => ?_⟩
  · have := congrArg (List.map (·.opening)) haround
    rw [List.map_map, List.map_map] at this
    exact hstack.trans this.symm
  · rw [← hinnermost]
    rfl
  · have hmem : x.extent ∈ (doc.forest.enclosing c.pos).map (·.1) := by
      rw [← haround]
      exact List.mem_map.mpr ⟨x, List.mem_filter.mpr ⟨hx, hp⟩, rfl⟩
    obtain ⟨y, hy, hextent⟩ := List.mem_map.mp hmem
    cases hin : doc.forest.innermost? c.pos with
    | none =>
      -- There is a list around the position, so there is an innermost one.
      have hnil : doc.forest.enclosing c.pos = [] := List.getLast?_eq_none_iff.mp hin
      rw [hnil] at hy
      exact nomatch hy
    | some z =>
      exact ⟨z, rfl, hextent ▸ doc.placed_forest.within_of_innermost hin y hy⟩

/-- In `)(a (b`, nothing closes the two lists around the end, and the first delimiter closes nothing:
    the inner list lies within the outer one. -/
theorem lists_around_wait_unclosed :
    let doc := Document.ofText .lisp [')', '(', 'a', ' ', '(', 'b']
    let x : Forest.Entry :=
      ⟨none, ⟨1, 1, 6, 6, false⟩, .leaf 2 3 (.list ⟨4, 4, 6, 6, false⟩ (.leaf 5 6 .nil) .nil)⟩
    x ∈ doc.forest.lists ∧ x.extent.encloses (doc.cursorAt 6).pos = true ∧
    Token.waiting (doc.tokens.filter (·.start < (doc.cursorAt 6).pos)) = [1, 4] ∧
    ∃ y ∈ doc.forest.innermost? (doc.cursorAt 6).pos, y.1.Within x.extent := by
  intro doc x
  have hx : x ∈ doc.forest.lists := by decide
  have hp : x.extent.encloses (doc.cursorAt 6).pos = true := by decide
  have hstack := (lists_around_wait doc (doc.cursorAt 6)).1
  refine ⟨hx, hp, hstack.trans (by decide), ?_⟩
  exact (lists_around_wait doc (doc.cursorAt 6)).2.2.2 x hx hp

end Document

end SExprNav
