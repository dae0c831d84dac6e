import SExprNav.Proofs.Forest.Nodes

/-!
# Levels

The level of a position is what is inside the innermost list around it. In a forest that is placed,
positions that are in the same list, but not inside any of its children, have the same level.

## Key results

- `Forest.Placed.level`: a level lies between the delimiters of its list
- `Forest.Placed.enclosing_eq`: when the lists around two positions are the same
- `Forest.Placed.level_stop`: the position after an expression has the level of the expression
- `Forest.Placed.level_opening_succ`: the position after an opening delimiter is inside its list
-/

namespace SExprNav.Forest

/-- The lists around a position are lists of the forest. -/
theorem entry_of_mem_enclosing {f : Forest} {q : Nat} {x : Extent × Forest}
    (h : x ∈ f.enclosing q) (p : Option Extent) :
    ∃ y ∈ f.entries p, y.extent = x.1 ∧ y.children = x.2 := by
  induction f generalizing p with
  | nil => exact nomatch h
  | leaf start stop next ih => exact ih h p
  | list e children next ihc ihn =>
    simp only [enclosing] at h
    split at h
    · cases List.mem_cons.mp h with
      | inl hx => exact ⟨⟨p, e, children⟩, by simp [entries], by simp [hx], by simp [hx]⟩
      | inr hx =>
        obtain ⟨y, hy, hyx⟩ := ihc hx (some e)
        exact ⟨y, by simp [entries, hy], hyx⟩
    · obtain ⟨y, hy, hyx⟩ := ihn h p
      exact ⟨y, by simp [entries, hy], hyx⟩

theorem mem_extents_of_mem_enclosing {f : Forest} {q : Nat} {x : Extent × Forest}
    (h : x ∈ f.enclosing q) : x.1 ∈ f.extents := by
  obtain ⟨y, hy, hyx, -⟩ := entry_of_mem_enclosing h none
  rw [← hyx]
  exact mem_extents_of_mem_entries hy

/-- The level of a position is one of the levels of the forest. -/
theorem level_mem_levels (f : Forest) (q : Nat) :
    ((f.innermost? q).map (·.1), f.level q) ∈ f.levels := by
  unfold level
  cases h : f.innermost? q with
  | none => exact List.mem_cons_self
  | some x =>
    obtain ⟨y, hy, he, hc⟩ := entry_of_mem_enclosing (List.mem_of_getLast? h) none
    refine List.mem_cons_of_mem _ (List.mem_map.mpr ⟨y, hy, ?_⟩)
    simp [he, hc]

/-- The innermost list around a position inside a list is that list, unless there is another one
    inside it. -/
theorem innermost?_list (e : Extent) (children next : Forest) (p : Nat) :
    (Forest.list e children next).innermost? p =
      if e.encloses p then some ((children.innermost? p).getD (e, children))
      else next.innermost? p := by
  unfold innermost?
  rw [enclosing]
  split
  · exact List.getLast?_cons
  · rfl

theorem level_of_enclosing_eq {f : Forest} {p q : Nat} (h : f.enclosing q = f.enclosing p) :
    f.level q = f.level p := by
  unfold level innermost?
  rw [h]

namespace Placed

variable {lo hi length : Nat} {f : Forest}

/-- A level is placed between the delimiters of its list. -/
theorem level (h : f.Placed 0 length) {ℓ : Option Extent × Forest} (hℓ : ℓ ∈ f.levels) :
    ∃ lo hi, ℓ.2.Placed lo hi ∧ hi ≤ length ∧ ∀ p ∈ ℓ.1, p.opening < lo ∧ hi ≤ p.closing := by
  cases List.mem_cons.mp hℓ with
  | inl hroot =>
    subst hroot
    exact ⟨0, length, h, Nat.le_refl _, nofun⟩
  | inr hlist =>
    obtain ⟨x, hx, rfl⟩ := List.mem_map.mp hlist
    have hb := h.extents_bounds _ (mem_extents_of_mem_entries hx)
    refine ⟨x.extent.opening + 1, x.extent.closing, h.children hx, by omega, ?_⟩
    intro p hp
    cases hp
    exact ⟨Nat.lt_succ_self _, Nat.le_refl _⟩

/-! ## Positions of the same level -/

/-- No list of a forest is around a position where the forest has not yet started. -/
theorem enclosing_eq_nil (h : f.Placed lo hi) {q : Nat} (hq : q ≤ lo) : f.enclosing q = [] := by
  rw [List.eq_nil_iff_forall_not_mem]
  intro x hx
  have hlt := (Extent.encloses_iff.mp (encloses_of_mem_enclosing hx)).1
  have hb := h.extents_bounds _ (mem_extents_of_mem_enclosing hx)
  omega

/-- No list of a forest is around the position after an expression that ends at its level. -/
theorem enclosing_stop (h : f.Placed lo hi) {s : Span} (hs : s ∈ f.spans)
    (hclosed : s.closed = true) : f.enclosing s.stop = [] := by
  induction h using Placed.induction with
  | nil => exact nomatch hs
  | leaf _ _ hnext ih =>
    cases List.mem_cons.mp hs with
    | inl hs => subst hs; exact hnext.enclosing_eq_nil (Nat.le_refl _)
    | inr hs => exact ih hs
  | @closed lo hi e children next _ _ _ _ hstop _ hnext _ ih =>
    -- The position after a closed list is not inside it.
    have hout : ∀ {q}, e.stop ≤ q → ¬ e.encloses q = true := by
      intro q hq
      rw [Extent.encloses_iff]
      omega
    cases List.mem_cons.mp hs with
    | inl hs =>
      subst hs
      rw [enclosing, if_neg (hout (Nat.le_refl _))]
      exact hnext.enclosing_eq_nil (Nat.le_refl _)
    | inr hs =>
      have hb := hnext.spans_bounds s hs
      rw [enclosing, if_neg (hout (by omega))]
      exact ih hs
  | unclosed hc =>
    obtain rfl := List.mem_singleton.mp hs
    exact absurd hclosed (by simp [hc])

section Inside

variable {e : Extent} {children next : Forest} {p q : Nat}

/-- A list is around all positions that the lists inside it are around. -/
theorem encloses_of_mem_extents (hch : children.Placed (e.opening + 1) e.closing) {x : Extent}
    (hx : x ∈ children.extents) (hq : x.encloses q = true) : e.encloses q = true := by
  have hb := hch.extents_bounds x hx
  rw [Extent.encloses_iff] at hq ⊢
  omega

/-- A list is around the position after its opening delimiter. -/
theorem encloses_opening_succ (hch : children.Placed (e.opening + 1) e.closing) :
    e.encloses (e.opening + 1) = true := by
  have hle := hch.le
  rw [Extent.encloses_iff]
  omega

/-- If a list is around a position, and another position is inside the innermost such list, then the
    lists around the two are the same. -/
theorem enclosing_list_eq (hch : children.Placed (e.opening + 1) e.closing)
    (hp : e.encloses p = true) {x : Extent × Forest}
    (hx : (Forest.list e children next).innermost? p = some x) (hin : x.1.encloses q = true)
    (hout : x.2.enclosing q = [])
    (ih : children.innermost? p = some x → children.enclosing q = children.enclosing p) :
    (Forest.list e children next).enclosing q = (Forest.list e children next).enclosing p := by
  rw [innermost?_list, if_pos hp, Option.some.injEq] at hx
  cases hl : children.innermost? p with
  | none =>
    -- The list itself is the innermost one.
    rw [hl] at hx
    obtain rfl : (e, children) = x := hx
    have hnil : children.enclosing p = [] := List.getLast?_eq_none_iff.mp hl
    rw [enclosing, if_pos hin, enclosing, if_pos hp, hout, hnil]
  | some y =>
    rw [hl] at hx
    obtain rfl : y = x := hx
    have hmem := mem_extents_of_mem_enclosing (List.mem_of_getLast? hl)
    have hq := hch.encloses_of_mem_extents hmem hin
    rw [enclosing, if_pos hq, enclosing, if_pos hp, ih hl]

end Inside

/-- If a position is inside the innermost list around another one, but inside none of the children
    of that list, then the lists around the two positions are the same. -/
theorem enclosing_eq_of_innermost (h : f.Placed lo hi) {p q : Nat} {x : Extent × Forest}
    (hx : f.innermost? p = some x) (hin : x.1.encloses q = true) (hout : x.2.enclosing q = []) :
    f.enclosing q = f.enclosing p := by
  induction h using Placed.induction with
  | nil => exact nomatch hx
  | leaf _ _ _ ih => exact ih hx
  | @closed lo hi e children next _ _ _ hch hstop _ hnext ihc ihn =>
    by_cases hp : e.encloses p = true
    · exact enclosing_list_eq hch hp hx hin hout ihc
    · -- The innermost list is after this one, and so is the other position.
      rw [innermost?_list, if_neg hp] at hx
      have hb := hnext.extents_bounds _ (mem_extents_of_mem_enclosing (List.mem_of_getLast? hx))
      have hq : ¬ e.encloses q = true := by
        rw [Extent.encloses_iff] at hin ⊢
        omega
      rw [enclosing, if_neg hq, enclosing, if_neg hp, ihn hx]
  | @unclosed lo e children _ _ _ hch _ ihc =>
    by_cases hp : e.encloses p = true
    · exact enclosing_list_eq hch hp hx hin hout ihc
    · rw [innermost?_list, if_neg hp] at hx
      exact nomatch hx

/-- Positions that are in the same list, but not inside any of its children, are inside the same
    lists. -/
theorem enclosing_eq (h : f.Placed lo hi) {p q : Nat}
    (hin : ∀ x ∈ f.innermost? p, x.1.encloses q = true) (hout : (f.level p).enclosing q = []) :
    f.enclosing q = f.enclosing p := by
  cases hx : f.innermost? p with
  | none =>
    have hp : f.enclosing p = [] := List.getLast?_eq_none_iff.mp hx
    rw [hp]
    simpa [Forest.level, hx] using hout
  | some x =>
    have hout' : x.2.enclosing q = [] := by simpa [Forest.level, hx] using hout
    exact h.enclosing_eq_of_innermost hx (hin x hx) hout'

/-- The position after an expression has the level of the expression. -/
theorem level_stop (h : f.Placed 0 length) {p : Nat} {s : Span} (hs : s ∈ (f.level p).spans)
    (hclosed : s.closed = true) : f.level s.stop = f.level p := by
  obtain ⟨lo, hi, hlevel, -, hparent⟩ := h.level (f.level_mem_levels p)
  have hb := hlevel.spans_bounds s hs
  apply level_of_enclosing_eq
  apply h.enclosing_eq
  · intro x hx
    have := hparent x.1 (Option.mem_map_of_mem (·.1) hx)
    exact Extent.encloses_iff.mpr ⟨by omega, by omega⟩
  · exact hlevel.enclosing_stop hs hclosed

/-- The position after an opening delimiter is inside its list, and inside no list in that one. -/
theorem innermost?_opening_succ (h : f.Placed lo hi) {p : Option Extent} {x : Entry}
    (hx : x ∈ f.entries p) : f.innermost? (x.extent.opening + 1) = some (x.extent, x.children) := by
  have hown : x.extent.encloses (x.extent.opening + 1) = true := (h.children hx).encloses_opening_succ
  have hnil : x.children.innermost? (x.extent.opening + 1) = none := by
    unfold innermost?
    rw [(h.children hx).enclosing_eq_nil (Nat.le_refl _)]
    rfl
  induction h using Placed.induction generalizing p with
  | nil => exact nomatch hx
  | leaf _ _ _ ih => exact ih hx
  | @closed lo hi e children next _ _ _ hch hstop _ hnext ihc ihn =>
    rw [innermost?_list]
    simp only [entries, List.cons_append, List.mem_cons, List.mem_append] at hx
    rcases hx with rfl | hx | hx
    · rw [if_pos hown, hnil]
      rfl
    · rw [if_pos (hch.encloses_of_mem_extents (mem_extents_of_mem_entries hx) hown), ihc hx]
      rfl
    · have hb := hnext.extents_bounds _ (mem_extents_of_mem_entries hx)
      have hout : ¬ e.encloses (x.extent.opening + 1) = true := by
        rw [Extent.encloses_iff]
        omega
      rw [if_neg hout]
      exact ihn hx
  | @unclosed lo e children _ _ _ hch _ ihc =>
    rw [innermost?_list]
    simp only [entries, List.append_nil, List.mem_cons] at hx
    rcases hx with rfl | hx
    · rw [if_pos hown, hnil]
      rfl
    · rw [if_pos (hch.encloses_of_mem_extents (mem_extents_of_mem_entries hx) hown), ihc hx]
      rfl

/-- What is around the position after an opening delimiter are the children of its list. -/
theorem level_opening_succ (h : f.Placed lo hi) {p : Nat} (hp : p ∈ f.extents.map (·.opening)) :
    ∃ closing, (f.level (p + 1)).Placed (p + 1) closing := by
  rw [← entries_extent f none, List.map_map] at hp
  obtain ⟨x, hx, rfl⟩ := List.mem_map.mp hp
  refine ⟨x.extent.closing, ?_⟩
  have hin := h.innermost?_opening_succ hx
  have hch := h.children hx
  simpa [Forest.level, hin] using hch

end Placed

end SExprNav.Forest
