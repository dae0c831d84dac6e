import Mathlib.Data.List.Induction
import SExprNav.Proofs.Forest.Reading
import SExprNav.Proofs.Token.Concatenation

/-!
# The forest of two texts with a blank between them

Tokens are read from the right, and what has been read of the second text is met by the tokens of the
first one. If every list of the first text is closed there, none of them takes in anything of the
second text; and if its last quote mark has an expression after it, none is left for the second text.
Then the forest of both is that of the first text, followed by that of the second one, moved to the
right.

## Key results

- `Segments.ofTokens_append`: reading tokens after others whose lists are closed
- `Segments.ofTokens_shift`: reading tokens that are moved to the right
- `Document.forest_append`: the forest of two texts with a blank between them
-/

namespace SExprNav

namespace Token

/-- Where the quote marks start that stand before the next token, after one more token. -/
def markAfter (mark : Option Nat) (t : Token) : Option Nat :=
  match t.kind with
  | .comment => mark
  | .quote => some (mark.getD t.start)
  | .opener | .closer | .atom | .string => none

/-- No quote marks are left, unless the last token that is no comment is one. -/
theorem foldl_markAfter_eq_none {ts : List Token}
    (h : ∀ t ∈ (ts.filter (·.kind ≠ .comment)).getLast?, t.kind ≠ .quote) :
    ts.foldl markAfter none = none := by
  induction ts using List.reverseRecOn with
  | nil => rfl
  | append_singleton ts t ih =>
    rw [List.filter_append] at h
    rw [List.foldl_append, List.foldl_cons, List.foldl_nil]
    by_cases hcomment : t.kind = .comment
    · -- A comment changes nothing.
      have hnone := ih (by simpa [hcomment] using h)
      rw [markAfter, hcomment, hnone]
    · have hquote : t.kind ≠ .quote := h t (by simp [hcomment])
      unfold markAfter
      cases hkind : t.kind <;> simp_all

end Token

namespace Forest

@[simp] theorem shift_append (n : Nat) (f g : Forest) : (f ++ g).shift n = f.shift n ++ g.shift n := by
  induction f with
  | nil => rfl
  | leaf start stop next ih => simp [shift, ih]
  | list e children next _ ih => simp [shift, ih]

end Forest

namespace Segments

/-- Puts a forest in front. -/
def addForest (f : Forest) : Segments → Segments
  | .last g => .last (f ++ g)
  | .cut g closer rest => .cut (f ++ g) closer rest

/-- The first segments, then the second ones, the forests in between being joined. -/
def append : Segments → Segments → Segments
  | .last f, s => s.addForest f
  | .cut f closer rest, s => .cut f closer (rest.append s)

/-- The segments moved to the right. -/
def shift (n : Nat) : Segments → Segments
  | .last f => .last (f.shift n)
  | .cut f closer rest => .cut (f.shift n) (closer.shift n) (rest.shift n)

theorem join_append (s u : Segments) : (s.append u).join = s.join ++ u.join := by
  induction s with
  | last f => cases u <;> simp [append, addForest, join, Forest.append_assoc]
  | cut f closer rest ih => simp [append, join, ih, Forest.append_assoc]

theorem addLeaf_append (start stop : Nat) (s u : Segments) :
    (s.append u).addLeaf start stop = (s.addLeaf start stop).append u := by
  cases s with
  | last f => cases u <;> rfl
  | cut f closer rest => rfl

theorem addList_append (e : Extent) (children : Forest) (s u : Segments) :
    (s.append u).addList e children = (s.addList e children).append u := by
  cases s with
  | last f => cases u <;> rfl
  | cut f closer rest => rfl

/-- Tokens that are read after others, if every list of the others is closed. They are read with the
    quote marks that the others have left. The length of the text does not matter to closed lists. -/
theorem ofTokens_append {length length' : Nat} {mark : Option Nat} {ts us : List Token}
    (h : (ofTokens length mark ts).join.AllClosed) :
    ofTokens length' mark (ts ++ us) =
      (ofTokens length mark ts).append (ofTokens length' (ts.foldl Token.markAfter mark) us) := by
  induction ts generalizing mark with
  | nil =>
    show ofTokens length' mark us = (ofTokens length' mark us).addForest .nil
    cases ofTokens length' mark us <;> rfl
  | cons t ts ih =>
    rw [List.cons_append, List.foldl_cons]
    cases hkind : t.kind with
    | comment | quote =>
      simp only [ofTokens, Token.markAfter, hkind] at h ⊢
      exact ih h
    | closer =>
      simp only [ofTokens, Token.markAfter, hkind] at h ⊢
      rw [ih h]
      rfl
    | atom | string =>
      simp only [ofTokens, Token.markAfter, hkind, join_addLeaf] at h ⊢
      rw [ih h, addLeaf_append]
    | opener =>
      simp only [ofTokens, Token.markAfter, hkind] at h ⊢
      -- The list is closed, so that its partner is among the first tokens.
      cases hrest : ofTokens length none ts with
      | last f =>
        rw [hrest] at h
        exact nomatch h.1
      | cut f closer rest =>
        rw [hrest, enclose, join_addList] at h
        have hclosed : (ofTokens length none ts).join.AllClosed := by
          rw [hrest]
          exact h.2.1.append h.2.2
        rw [ih hclosed, hrest]
        exact addList_append _ f rest _

theorem addLeaf_shift (n start stop : Nat) (s : Segments) :
    (s.addLeaf start stop).shift n = (s.shift n).addLeaf (start + n) (stop + n) := by
  cases s <;> rfl

theorem enclose_shift (n length start opening : Nat) (s : Segments) :
    (s.enclose length start opening).shift n =
      (s.shift n).enclose (length + n) (start + n) (opening + n) := by
  cases s with
  | last f => rfl
  | cut f closer rest => cases rest <;> rfl

theorem join_shift (n : Nat) (s : Segments) : (s.shift n).join = s.join.shift n := by
  induction s with
  | last f => rfl
  | cut f closer rest ih => simp [shift, join, ih]

/-- Tokens that are moved to the right are read the same way, in a text that is longer by as much. -/
theorem ofTokens_shift (length n : Nat) (mark : Option Nat) (ts : List Token) :
    ofTokens (length + n) (mark.map (· + n)) (ts.map (Token.shift n)) =
      (ofTokens length mark ts).shift n := by
  induction ts generalizing mark with
  | nil => rfl
  | cons t ts ih =>
    have hrest : ofTokens (length + n) none (ts.map (Token.shift n)) =
        (ofTokens length none ts).shift n := ih none
    have hstart : (mark.map (· + n)).getD (t.start + n) = mark.getD t.start + n := by
      cases mark <;> rfl
    rw [List.map_cons]
    cases hkind : t.kind with
    | comment =>
      simp only [ofTokens, Token.shift, hkind]
      exact ih mark
    | quote =>
      simp only [ofTokens, Token.shift, hkind, hstart]
      exact ih (some (mark.getD t.start))
    | closer =>
      simp only [ofTokens, Token.shift, hkind, hrest]
      rw [← hkind]
      rfl
    | opener => simp only [ofTokens, Token.shift, hkind, hstart, hrest, enclose_shift]
    | atom | string => simp only [ofTokens, Token.shift, hkind, hstart, hrest, addLeaf_shift]

end Segments

namespace Document

/-- Take two texts with a blank between them that no token covers. If the first text alone has no
    list that nothing closes and does not end in a quote mark, comments aside, then the expressions of
    both are those of the first text, followed by those of the second one, all of whose positions are
    moved to where it starts. -/
theorem forest_append {d : Dialect} {first second : List Char} {w : Char}
    (hopening : ∀ c ∈ d.opening, Text.isBlank c = false) (hmarker : '\n' ∉ d.marker)
    (hw : Text.isBlank w = true)
    (hcut : ∀ t ∈ d.tokens (first ++ w :: second), ¬ t.Covers first.length)
    (hclosed : (ofText d first).forest.AllClosed)
    (hquote : ∀ t ∈ ((ofText d first).tokens.filter (·.kind ≠ .comment)).getLast?,
      t.kind ≠ .quote) :
    (ofText d (first ++ w :: second)).forest =
      (ofText d first).forest ++ (ofText d second).forest.shift (first.length + 1) := by
  have htokens := Dialect.tokens_append hopening hmarker hw hcut
  have hmark : (d.tokens first).foldl Token.markAfter none = none :=
    Token.foldl_markAfter_eq_none hquote
  have hlength : (first ++ w :: second).length = second.length + (first.length + 1) := by
    simp only [List.length_append, List.length_cons]
    omega
  show Forest.ofTokens (first ++ w :: second).length (d.tokens (first ++ w :: second)) =
    Forest.ofTokens first.length (d.tokens first) ++
      (Forest.ofTokens second.length (d.tokens second)).shift (first.length + 1)
  unfold Forest.ofTokens
  rw [htokens, Segments.ofTokens_append hclosed, Segments.join_append, hmark, hlength,
    ← Segments.join_shift, ← Segments.ofTokens_shift]
  rfl

/-- The first text ends in a comment, and the second one starts with a delimiter that closes nothing
    and leaves a list open. -/
theorem forest_append_after_comment :
    let first := ['\x27', 'a', ' ', ';', 'x']
    let second := [')', '(', 'b']
    (ofText .lisp (first ++ '\n' :: second)).forest =
        (ofText .lisp first).forest ++ (ofText .lisp second).forest.shift 6 ∧
      (ofText .lisp second).forest = .list ⟨1, 1, 3, 3, false⟩ (.leaf 2 3 .nil) .nil := by
  intro first second
  have hopening : ∀ c ∈ Dialect.lisp.opening, Text.isBlank c = false :=
    List.forall_mem_iff_getElem.mpr (by decide)
  have hcut : ∀ t ∈ Dialect.lisp.tokens (first ++ '\n' :: second), ¬ t.Covers first.length := by
    decide
  have hclosed : (ofText .lisp first).forest.AllClosed := trivial
  exact ⟨forest_append hopening (by decide) (by decide) hcut hclosed (by decide), rfl⟩

end Document

end SExprNav
