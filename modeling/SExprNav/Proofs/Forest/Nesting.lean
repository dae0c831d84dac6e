import Mathlib.Data.List.Nodup
import SExprNav.Proofs.Forest.Level

/-!
# How lists contain one another

Two lists of a forest that is placed do not overlap: one is inside the other, or they are apart. The
innermost list around a position is the one that opens last. The position where an expression starts
has the level of the expression, and so has the opening delimiter of a list, which may stand behind
quote marks.

## Key results

- `Forest.Placed.eq_of_opening_eq`: lists open at different positions
- `Forest.Placed.closing_le_of_opening_mem`: a list that opens inside another one closes there
- `Forest.Placed.innermost?_of_encloses`: the innermost list opens last
- `Forest.Placed.enclosing_of_start`: the start of an expression has the level of the expression
- `Forest.Placed.span_mem_level`: a list is an expression of the level of its opening delimiter
- `Forest.Placed.not_encloses_of_span_mem_level`: no expression of its level is around a position
-/

namespace SExprNav.Forest

/-- The level of a position inside a list is its level among the expressions of the list. -/
theorem level_list_of_encloses {e : Extent} {children next : Forest} {p : Nat}
    (h : e.encloses p = true) : (Forest.list e children next).level p = children.level p := by
  unfold level
  rw [innermost?_list, if_pos h]
  cases children.innermost? p <;> rfl

/-- What is at the level of a position still is when an expression is put in front that is not
    around the position. -/
theorem mem_spans_level_list {e : Extent} {children next : Forest} {p : Nat} {s : Span}
    (h : ¬ e.encloses p = true) (hs : s ∈ (next.level p).spans) :
    s ∈ ((Forest.list e children next).level p).spans := by
  unfold level at hs ⊢
  rw [innermost?_list, if_neg h]
  cases hin : next.innermost? p with
  | none =>
    rw [hin] at hs
    exact List.mem_cons_of_mem _ hs
  | some x =>
    rw [hin] at hs
    exact hs

theorem mem_spans_level_leaf {start stop : Nat} {next : Forest} {p : Nat} {s : Span}
    (hs : s ∈ (next.level p).spans) : s ∈ ((Forest.leaf start stop next).level p).spans := by
  have hinnermost : (Forest.leaf start stop next).innermost? p = next.innermost? p := rfl
  unfold level at hs ⊢
  rw [hinnermost]
  cases hin : next.innermost? p with
  | none =>
    rw [hin] at hs
    exact List.mem_cons_of_mem _ hs
  | some x =>
    rw [hin] at hs
    exact hs

namespace Placed

variable {lo hi length : Nat} {f : Forest}

/-- A closed list ends with its closing delimiter. -/
theorem stop_of_closed (h : f.Placed lo hi) :
    ∀ e ∈ f.extents, e.closed = true → e.stop = e.closing + 1 := by
  induction h using Placed.induction with
  | nil => exact List.forall_mem_nil _
  | leaf _ _ _ ih => exact ih
  | closed _ _ _ _ hstop _ _ ihc ihn =>
    simp only [extents, List.cons_append, List.forall_mem_cons, List.forall_mem_append]
    exact ⟨fun _ => hstop, ihc, ihn⟩
  | unclosed hc _ _ _ _ ihc =>
    simp only [extents, List.cons_append, List.forall_mem_cons, List.forall_mem_append]
    refine ⟨fun hclosed => ?_, ihc, List.forall_mem_nil _⟩
    rw [hc] at hclosed
    cases hclosed

/-- No two lists open at the same position. -/
theorem eq_of_opening_eq (h : f.Placed lo hi) {d e : Extent} (hd : d ∈ f.extents)
    (he : e ∈ f.extents) (heq : d.opening = e.opening) : d = e := by
  have hnodup : (f.extents.map (·.opening)).Nodup := by
    rw [List.Nodup, List.pairwise_map]
    exact h.extents_pairwise.imp Nat.ne_of_lt
  exact List.inj_on_of_nodup_map hnodup hd he heq

/-- A list that opens inside another one closes there, too. -/
theorem closing_le_of_opening_mem (h : f.Placed lo hi) {d e : Extent} (hd : d ∈ f.extents)
    (he : e ∈ f.extents) (hlt : d.opening < e.opening) (hle : e.opening ≤ d.closing) :
    e.closing ≤ d.closing := by
  induction h using Placed.induction with
  | nil => exact nomatch hd
  | leaf _ _ _ ih => exact ih hd he
  | closed _ _ _ hch hstop _ hnext ihc ihn =>
    -- Lists on the two sides of a closing delimiter do not open inside one another.
    have hbc := hch.extents_bounds
    have hbn := hnext.extents_bounds
    simp only [extents, List.cons_append, List.mem_cons, List.mem_append] at hd he
    rcases hd with rfl | hd | hd
    · rcases he with rfl | he | he
      · omega
      · have := hbc e he
        omega
      · have := hbn e he
        omega
    · have hdb := hbc d hd
      rcases he with rfl | he | he
      · omega
      · exact ihc hd he
      · have := hbn e he
        omega
    · have hdb := hbn d hd
      have hin := hch.le
      rcases he with rfl | he | he
      · omega
      · have := hbc e he
        omega
      · exact ihn hd he
  | unclosed _ _ _ hch _ ihc =>
    have hbc := hch.extents_bounds
    simp only [extents, List.append_nil, List.mem_cons] at hd he
    rcases hd with rfl | hd
    · rcases he with rfl | he
      · omega
      · have := hbc e he
        omega
    · have hdb := hbc d hd
      rcases he with rfl | he
      · omega
      · exact ihc hd he

/-- Of the lists around a position, the innermost one opens last. -/
theorem innermost?_of_encloses (h : f.Placed lo hi) {p : Nat} {e : Extent} (he : e ∈ f.extents)
    (hp : e.encloses p = true) : ∃ x, f.innermost? p = some x ∧ e.opening ≤ x.1.opening := by
  -- If the first list of the forest is around the position, the innermost one is that list or
  -- inside it.
  have hfirst : ∀ {d : Extent} {children next : Forest}, d.encloses p = true →
      children.Placed (d.opening + 1) d.closing →
      ∃ x, (Forest.list d children next).innermost? p = some x ∧ d.opening ≤ x.1.opening := by
    intro d children next hd hch
    rw [innermost?_list, if_pos hd]
    cases hin : children.innermost? p with
    | none => exact ⟨_, rfl, Nat.le_refl _⟩
    | some x =>
      have hb := hch.extents_bounds _ (mem_extents_of_mem_enclosing (List.mem_of_getLast? hin))
      exact ⟨x, rfl, by omega⟩
  have hinside : ∀ {d : Extent} {children next : Forest} {x : Extent × Forest},
      d.encloses p = true → children.innermost? p = some x →
      (Forest.list d children next).innermost? p = some x := by
    intro d children next x hd hx
    rw [innermost?_list, if_pos hd, hx]
    rfl
  induction h using Placed.induction with
  | nil => exact nomatch he
  | leaf _ _ _ ih => exact ih he
  | closed _ _ _ hch hstop _ hnext ihc ihn =>
    simp only [extents, List.cons_append, List.mem_cons, List.mem_append] at he
    rcases he with rfl | he | he
    · exact hfirst hp hch
    · obtain ⟨x, hx, hle⟩ := ihc he
      exact ⟨x, hinside (hch.encloses_of_mem_extents he hp) hx, hle⟩
    · obtain ⟨x, hx, hle⟩ := ihn he
      have hb := hnext.extents_bounds e he
      rw [Extent.encloses_iff] at hp
      refine ⟨x, ?_, hle⟩
      rw [innermost?_list, if_neg, hx]
      rw [Extent.encloses_iff]
      omega
  | unclosed _ _ _ hch _ ihc =>
    simp only [extents, List.append_nil, List.mem_cons] at he
    rcases he with rfl | he
    · exact hfirst hp hch
    · obtain ⟨x, hx, hle⟩ := ihc he
      exact ⟨x, hinside (hch.encloses_of_mem_extents he hp) hx, hle⟩

/-! ## Where expressions start -/

/-- No list of a forest is around the start of an expression of its own level. -/
theorem enclosing_start (h : f.Placed lo hi) {s : Span} (hs : s ∈ f.spans) :
    f.enclosing s.start = [] := by
  induction h using Placed.induction with
  | nil => exact nomatch hs
  | leaf _ hne hnext ih =>
    cases List.mem_cons.mp hs with
    | inl hs => subst hs; exact hnext.enclosing_eq_nil (Nat.le_of_lt hne)
    | inr hs => exact ih hs
  | @closed lo hi e children next _ _ hstart hch hstop _ hnext _ ih =>
    have hin := hch.le
    cases List.mem_cons.mp hs with
    | inl hs =>
      subst hs
      have hout : ¬ e.encloses e.start = true := by
        rw [Extent.encloses_iff]
        omega
      rw [enclosing, if_neg hout]
      exact hnext.enclosing_eq_nil (by dsimp only; omega)
    | inr hs =>
      have hb := hnext.spans_bounds s hs
      have hout : ¬ e.encloses s.start = true := by
        rw [Extent.encloses_iff]
        omega
      rw [enclosing, if_neg hout]
      exact ih hs
  | @unclosed lo e children _ _ hstart _ _ _ =>
    obtain rfl := List.mem_singleton.mp hs
    have hout : ¬ e.encloses e.start = true := by
      rw [Extent.encloses_iff]
      omega
    rw [enclosing, if_neg hout]
    rfl

/-- The start of an expression is in the same lists as every other position of its level. -/
theorem enclosing_of_start (h : f.Placed 0 length) {p : Nat} {s : Span}
    (hs : s ∈ (f.level p).spans) : f.enclosing s.start = f.enclosing p := by
  obtain ⟨lo, hi, hlevel, -, hparent⟩ := h.level (f.level_mem_levels p)
  have hb := hlevel.spans_bounds s hs
  -- The expression lies between the delimiters of the innermost list, in no list of the level.
  apply h.enclosing_eq
  · intro x hx
    have := hparent x.1 (Option.mem_map_of_mem (·.1) hx)
    exact Extent.encloses_iff.mpr ⟨by omega, by omega⟩
  · exact hlevel.enclosing_start hs

/-- A list is an expression of the level of its opening delimiter. -/
theorem span_mem_level (h : f.Placed lo hi) {e : Extent} (he : e ∈ f.extents) :
    e.span ∈ (f.level e.opening).spans := by
  -- A list is not around its own opening delimiter, and nothing after it is.
  have hfirst : ∀ {children next : Forest}, next.enclosing e.opening = [] →
      e.span ∈ ((Forest.list e children next).level e.opening).spans := by
    intro children next hnil
    have hout : ¬ e.encloses e.opening = true := by
      rw [Extent.encloses_iff]
      omega
    unfold Forest.level
    rw [innermost?_list, if_neg hout]
    unfold innermost?
    rw [hnil]
    exact List.mem_cons_self
  induction h using Placed.induction with
  | nil => exact nomatch he
  | leaf _ _ _ ih => exact mem_spans_level_leaf (ih he)
  | @closed lo hi d children next _ _ _ hch hstop _ hnext ihc ihn =>
    simp only [extents, List.cons_append, List.mem_cons, List.mem_append] at he
    rcases he with rfl | he | he
    · have hin := hch.le
      exact hfirst (hnext.enclosing_eq_nil (by omega))
    · have hb := hch.extents_bounds e he
      rw [level_list_of_encloses (Extent.encloses_iff.mpr ⟨by omega, by omega⟩)]
      exact ihc he
    · have hb := hnext.extents_bounds e he
      apply mem_spans_level_list _ (ihn he)
      rw [Extent.encloses_iff]
      omega
  | @unclosed lo d children _ _ _ hch _ ihc =>
    simp only [extents, List.append_nil, List.mem_cons] at he
    rcases he with rfl | he
    · exact hfirst rfl
    · have hb := hch.extents_bounds e he
      rw [level_list_of_encloses (Extent.encloses_iff.mpr ⟨by omega, by omega⟩)]
      exact ihc he

/-- No expression of the level of a position is a list around the position. -/
theorem not_encloses_of_span_mem_level (h : f.Placed 0 length) {p : Nat} {e : Extent}
    (he : e ∈ f.extents) (hs : e.span ∈ (f.level p).spans) : ¬ e.encloses p = true := by
  intro hp
  obtain ⟨x, hx, hle⟩ := h.innermost?_of_encloses he hp
  obtain ⟨lo, hi, hlevel, -, hparent⟩ := h.level (f.level_mem_levels p)
  -- The expressions of the level start after the innermost list opens.
  have hb := hlevel.spans_bounds _ hs
  have hlt := hparent x.1 (Option.mem_map_of_mem (·.1) hx)
  have hstart := h.extents_bounds e he
  have hspan : e.span.start = e.start := rfl
  omega

end Placed

end SExprNav.Forest
