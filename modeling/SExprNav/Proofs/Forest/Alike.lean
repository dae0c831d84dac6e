import Mathlib.Data.List.Forall2
import SExprNav.Proofs.Forest.Level

/-!
# Forests alike

Two texts with the same kinds of tokens, comments apart, have forests of the same shape. The
positions of the one are matched with those of the other: `Matching` says that this keeps their
order, and `Forest.Alike` that the lists of two forests start, open and close at matched positions.
Then the lists around two matched positions are alike, too, and so are the levels.

## Key results

- `Forest.alike_ofTokens`: tokens of the same kinds at matched positions become forests alike
- `Matching.encloses_eq`, `Matching.encloses_succ_eq`: lists alike are around matched positions,
  and around the positions after them
- `Forest.Alike.innermost?`, `Forest.Alike.level`: what is around matched positions is alike
-/

namespace SExprNav

/-- Some positions of a text with `m` characters are matched with positions of a text with `n`
    characters. No position that is matched is the end of its text. -/
structure Matching (R : Nat → Nat → Prop) (m n : Nat) : Prop where
  lt_iff : ∀ {p p' q q'}, R p p' → R q q' → (p < q ↔ p' < q')
  lt_ends : ∀ {p p'}, R p p' → p < m ∧ p' < n

variable {R : Nat → Nat → Prop} {m n : Nat}

/-- Two lists alike. A list may also close at the end of the text, if the other one does. -/
structure Extent.Alike (R : Nat → Nat → Prop) (m n : Nat) (e e' : Extent) : Prop where
  start : R e.start e'.start
  opening : R e.opening e'.opening
  closing : R e.closing e'.closing ∨ e.closing = m ∧ e'.closing = n
  closed : e.closed = e'.closed

/-- Two expressions alike, as their levels see them. -/
structure Span.Alike (R : Nat → Nat → Prop) (s s' : Span) : Prop where
  start : R s.start s'.start
  closed : s.closed = s'.closed

/-- Two forests of the same shape, whose expressions start and whose lists open and close at matched
    positions. -/
inductive Forest.Alike (R : Nat → Nat → Prop) (m n : Nat) : Forest → Forest → Prop where
  | nil : Alike R m n .nil .nil
  | leaf {start start' stop stop' f f'} : R start start' → Alike R m n f f' →
      Alike R m n (.leaf start stop f) (.leaf start' stop' f')
  | list {e e' c c' f f'} : e.Alike R m n e' → Alike R m n c c' → Alike R m n f f' →
      Alike R m n (.list e c f) (.list e' c' f')

/-- Two tokens alike. -/
structure Token.Alike (R : Nat → Nat → Prop) (t t' : Token) : Prop where
  kind : t.kind = t'.kind
  start : R t.start t'.start

namespace Matching

/-- A position is matched with one position only, and the other way round. -/
theorem eq_iff (h : Matching R m n) {p p' q q' : Nat} (hp : R p p') (hq : R q q') :
    p = q ↔ p' = q' := by
  have hlt := h.lt_iff hp hq
  have hgt := h.lt_iff hq hp
  omega

/-- Where a list closes is matched as well as the end of the text allows. -/
theorem closing_lt_iff (h : Matching R m n) {e e' : Extent} (he : e.Alike R m n e') {p p' : Nat}
    (hp : R p p') : (e.closing < p ↔ e'.closing < p') ∧ (p < e.closing ↔ p' < e'.closing) := by
  cases he.closing with
  | inl hclosing => exact ⟨h.lt_iff hclosing hp, h.lt_iff hp hclosing⟩
  | inr hends =>
    -- Matched positions are before the ends of their texts.
    have := h.lt_ends hp
    omega

/-- Of two lists alike, both are around matched positions, or none is. -/
theorem encloses_eq (h : Matching R m n) {e e' : Extent} (he : e.Alike R m n e') {p p' : Nat}
    (hp : R p p') : e.encloses p = e'.encloses p' := by
  have hopening := h.lt_iff he.opening hp
  have hclosing := (h.closing_lt_iff he hp).1
  rw [Bool.eq_iff_iff, Extent.encloses_iff, Extent.encloses_iff]
  omega

/-- Of two lists alike, both are around the positions after matched ones, or none is. -/
theorem encloses_succ_eq (h : Matching R m n) {e e' : Extent} (he : e.Alike R m n e') {p p' : Nat}
    (hp : R p p') : e.encloses (p + 1) = e'.encloses (p' + 1) := by
  have hopening := h.lt_iff hp he.opening
  have hclosing := (h.closing_lt_iff he hp).2
  rw [Bool.eq_iff_iff, Extent.encloses_iff, Extent.encloses_iff]
  omega

end Matching

/-! ## Forests from tokens -/

namespace Segments

/-- Segments of the same shape with forests alike, between delimiters that start at matched
    positions. -/
inductive Alike (R : Nat → Nat → Prop) (m n : Nat) : Segments → Segments → Prop where
  | last {f f'} : f.Alike R m n f' → Alike R m n (.last f) (.last f')
  | cut {f f' t t' s s'} : f.Alike R m n f' → R t.start t'.start → Alike R m n s s' →
      Alike R m n (.cut f t s) (.cut f' t' s')

variable {s s' : Segments} {start start' opening opening' : Nat}

theorem Alike.addLeaf (h : s.Alike R m n s') (hstart : R start start') (stop stop' : Nat) :
    (s.addLeaf start stop).Alike R m n (s'.addLeaf start' stop') := by
  cases h with
  | last hf => exact .last (.leaf hstart hf)
  | cut hf ht hs => exact .cut (.leaf hstart hf) ht hs

theorem Alike.addList (h : s.Alike R m n s') {e e' : Extent} (he : e.Alike R m n e')
    {c c' : Forest} (hc : c.Alike R m n c') :
    (s.addList e c).Alike R m n (s'.addList e' c') := by
  cases h with
  | last hf => exact .last (.list he hc hf)
  | cut hf ht hs => exact .cut (.list he hc hf) ht hs

theorem Alike.enclose (h : s.Alike R m n s') (hstart : R start start')
    (hopening : R opening opening') :
    (s.enclose m start opening).Alike R m n (s'.enclose n start' opening') := by
  cases h with
  | last hf => exact .last (.list ⟨hstart, hopening, .inr ⟨rfl, rfl⟩, rfl⟩ hf .nil)
  | @cut f f' t t' s s' hf ht hs =>
    have he : Extent.Alike R m n ⟨start, opening, t.start, t.stop, true⟩
        ⟨start', opening', t'.start, t'.stop, true⟩ := ⟨hstart, hopening, .inl ht, rfl⟩
    exact hs.addList he hf

/-- Tokens alike are read into segments alike, if the quote marks before them are matched. -/
theorem alike_ofTokens {ts us : List Token} (h : List.Forall₂ (Token.Alike R) ts us)
    {mark mark' : Option Nat} (hmark : mark.Rel R mark') :
    (ofTokens m mark ts).Alike R m n (ofTokens n mark' us) := by
  induction h generalizing mark mark' with
  | nil => exact .last .nil
  | @cons t u ts us htu _ ih =>
    -- Quote marks come before the expressions in both texts, or in none.
    have hstart : R (mark.getD t.start) (mark'.getD u.start) := by
      cases hmark with
      | none => exact htu.start
      | some hR => exact hR
    unfold ofTokens
    rw [← htu.kind]
    cases t.kind with
    | comment => exact ih hmark
    | quote => exact ih (.some hstart)
    | closer => exact .cut .nil htu.start (ih .none)
    | opener => exact (ih .none).enclose hstart htu.start
    | atom | string => exact (ih .none).addLeaf hstart _ _

theorem Alike.join (h : s.Alike R m n s') : s.join.Alike R m n s'.join := by
  induction h with
  | last hf => exact hf
  | @cut f f' t t' s s' hf _ _ ih =>
    unfold Segments.join
    induction hf with
    | nil => exact ih
    | leaf hstart _ ihf => exact .leaf hstart ihf
    | list he hc _ _ ihf => exact .list he hc ihf

/-- Comments are not read. -/
theorem ofTokens_filter (length : Nat) (mark : Option Nat) (ts : List Token) :
    ofTokens length mark (ts.filter fun t => t.kind ≠ .comment) = ofTokens length mark ts := by
  induction ts generalizing mark with
  | nil => rfl
  | cons t ts ih =>
    by_cases hk : t.kind = .comment
    · rw [List.filter_cons_of_neg (by simp [hk]), ih, ofTokens, hk]
    · rw [List.filter_cons_of_pos (by simp [hk]), ofTokens, ofTokens]
      simp only [ih]

end Segments

namespace Forest

/-- Tokens of the same kinds at matched positions become forests alike, whatever comments there are
    between them. -/
theorem alike_ofTokens {ts us : List Token}
    (h : List.Forall₂ (Token.Alike R) (ts.filter fun t => t.kind ≠ .comment)
      (us.filter fun t => t.kind ≠ .comment)) :
    (ofTokens m ts).Alike R m n (ofTokens n us) := by
  unfold ofTokens
  rw [← Segments.ofTokens_filter m none ts, ← Segments.ofTokens_filter n none us]
  exact (Segments.alike_ofTokens h .none).join

/-! ## Levels alike -/

namespace Alike

variable {f f' : Forest}

/-- Two lists alike with children alike. -/
structure Lists (R : Nat → Nat → Prop) (m n : Nat) (x x' : Extent × Forest) : Prop where
  extent : x.1.Alike R m n x'.1
  children : x.2.Alike R m n x'.2

theorem spans (h : f.Alike R m n f') : List.Forall₂ (Span.Alike R) f.spans f'.spans := by
  induction h with
  | nil => exact .nil
  | leaf hstart _ ih => exact .cons ⟨hstart, rfl⟩ ih
  | list he _ _ _ ih => exact .cons ⟨he.start, he.closed⟩ ih

variable {p p' : Nat}

/-- The lists around two positions are alike if lists alike are around both or none of them. -/
theorem enclosing (h : f.Alike R m n f')
    (hp : ∀ {e e' : Extent}, e.Alike R m n e' → e.encloses p = e'.encloses p') :
    List.Forall₂ (Lists R m n) (f.enclosing p) (f'.enclosing p') := by
  induction h with
  | nil => exact .nil
  | leaf _ _ ih => exact ih
  | @list e e' c c' f f' he hc _ ihc ihf =>
    unfold Forest.enclosing
    rw [hp he]
    cases e'.encloses p' with
    | true => exact .cons ⟨he, hc⟩ ihc
    | false => exact ihf

/-- The last elements of related lists are related. -/
private theorem rel_getLast? {α β : Type} {P : α → β → Prop} {l : List α} {l' : List β}
    (h : List.Forall₂ P l l') : l.getLast?.Rel P l'.getLast? := by
  induction h with
  | nil => exact .none
  | @cons a b l l' hab _ ih =>
    rw [List.getLast?_cons, List.getLast?_cons]
    generalize l.getLast? = x, l'.getLast? = x' at ih
    cases ih with
    | none => exact .some hab
    | some hP => exact .some hP

theorem innermost? (h : f.Alike R m n f')
    (hp : ∀ {e e' : Extent}, e.Alike R m n e' → e.encloses p = e'.encloses p') :
    (f.innermost? p).Rel (Lists R m n) (f'.innermost? p') := rel_getLast? (h.enclosing hp)

/-- The levels of two positions are alike if lists alike are around both or none of them. -/
theorem level (h : f.Alike R m n f')
    (hp : ∀ {e e' : Extent}, e.Alike R m n e' → e.encloses p = e'.encloses p') :
    (f.level p).Alike R m n (f'.level p') := by
  have hin := h.innermost? hp
  unfold Forest.level
  generalize f.innermost? p = x, f'.innermost? p' = x' at hin
  cases hin with
  | none => exact h
  | some hx => exact hx.children

end Alike

end Forest

end SExprNav
