import SExprNav.Proofs.Forest.Nesting
import SExprNav.Proofs.Forest.Representation

/-!
# The lists around a position

In a forest that is placed, going down from list to list finds all lists around a position, and each
of them lies inside the one before it. Where the innermost one opens, all the others are around
still.

## Key results

- `Forest.Placed.filter_encloses`: no list around a position is missed
- `Forest.Placed.within_of_innermost`: the innermost list around a position lies within all of them
- `Forest.Placed.enclosing_opening`: what is around the opening delimiter of the innermost list
- `Document.depth_eq_nesting`: the depth of a cursor is the number of lists around it
-/

namespace SExprNav

/-- The list `e` lies inside the list `d`, or is the same. -/
structure Extent.Within (e d : Extent) : Prop where
  start : d.start ≤ e.start
  opening : d.opening ≤ e.opening
  closing : e.closing ≤ d.closing
  stop : e.stop ≤ d.stop

theorem Extent.within_refl (e : Extent) : e.Within e :=
  ⟨Nat.le_refl _, Nat.le_refl _, Nat.le_refl _, Nat.le_refl _⟩

namespace Forest

namespace Placed

variable {lo hi : Nat} {f : Forest}

section Inside

variable {e : Extent} {children next : Forest} {p : Nat}

/-- Of a list and those inside it, the ones around a position. -/
theorem filter_encloses_list (hch : children.Placed (e.opening + 1) e.closing)
    (ih : children.extents.filter (·.encloses p) = (children.enclosing p).map (·.1)) :
    (e :: children.extents).filter (·.encloses p) =
      if e.encloses p then e :: (children.enclosing p).map (·.1) else [] := by
  by_cases hp : e.encloses p = true
  · rw [List.filter_cons, if_pos hp, if_pos hp, ih]
  · rw [if_neg hp, List.filter_eq_nil_iff]
    intro d hd hdp
    cases List.mem_cons.mp hd with
    | inl hd => exact hp (hd ▸ hdp)
    | inr hd => exact hp (hch.encloses_of_mem_extents hd hdp)

/-- The lists inside a list lie inside it as a whole. -/
theorem within_of_mem_enclosing (hch : children.Placed (e.opening + 1) e.closing)
    (hstart : e.start ≤ e.opening) (hstop : e.closing ≤ e.stop) :
    ∀ x ∈ children.enclosing p, x.1.Within e := by
  intro x hx
  have hb := hch.extents_bounds _ (mem_extents_of_mem_enclosing hx)
  constructor <;> omega

/-- A list is not around its own opening delimiter, and nor is anything after it. -/
theorem enclosing_list_opening (hnext : next.enclosing e.opening = []) :
    (Forest.list e children next).enclosing e.opening = [] := by
  have hout : ¬ e.encloses e.opening = true := by
    rw [Extent.encloses_iff]
    omega
  rw [enclosing, if_neg hout, hnext]

/-- Where the innermost list opens, a list around the position is around still, unless it is the
    innermost one itself. -/
theorem enclosing_list_innermost (hch : children.Placed (e.opening + 1) e.closing)
    (hnext : next.enclosing e.opening = []) (hp : e.encloses p = true) {x : Extent × Forest}
    (hx : (Forest.list e children next).innermost? p = some x)
    (ih : children.innermost? p = some x →
      children.enclosing p = children.enclosing x.1.opening ++ [x]) :
    (Forest.list e children next).enclosing p =
      (Forest.list e children next).enclosing x.1.opening ++ [x] := by
  rw [innermost?_list, if_pos hp, Option.some.injEq] at hx
  cases hl : children.innermost? p with
  | none =>
    rw [hl] at hx
    obtain rfl : (e, children) = x := hx
    have hnil : children.enclosing p = [] := List.getLast?_eq_none_iff.mp hl
    rw [enclosing_list_opening hnext, enclosing, if_pos hp, hnil]
    rfl
  | some y =>
    rw [hl] at hx
    obtain rfl : y = x := hx
    have hb := hch.extents_bounds _ (mem_extents_of_mem_enclosing (List.mem_of_getLast? hl))
    have hin : e.encloses y.1.opening = true := Extent.encloses_iff.mpr ⟨by omega, by omega⟩
    rw [enclosing, enclosing, if_pos hp, if_pos hin, ih hl, List.cons_append]

end Inside

/-- No list that lies after a position is around it. -/
theorem filter_encloses_eq_nil (h : f.Placed lo hi) {p : Nat} (hp : p ≤ lo) :
    f.extents.filter (·.encloses p) = [] := by
  rw [List.filter_eq_nil_iff]
  intro e he
  have hb := h.extents_bounds e he
  rw [Extent.encloses_iff]
  omega

/-- No list that lies before a position is around it. -/
theorem enclosing_eq_nil_of_lt (h : f.Placed lo hi) {p : Nat} (hp : hi < p) :
    f.enclosing p = [] := by
  rw [List.eq_nil_iff_forall_not_mem]
  intro x hx
  have hle := (Extent.encloses_iff.mp (encloses_of_mem_enclosing hx)).2
  have hb := h.extents_bounds _ (mem_extents_of_mem_enclosing hx)
  omega

/-- Going down from list to list finds all lists around a position. -/
theorem filter_encloses (h : f.Placed lo hi) (p : Nat) :
    f.extents.filter (·.encloses p) = (f.enclosing p).map (·.1) := by
  induction h using Placed.induction with
  | nil => rfl
  | leaf _ _ _ ih => exact ih
  | @closed lo hi e children next _ _ _ hch hstop _ hnext ihc ihn =>
    rw [extents, enclosing, List.filter_append, filter_encloses_list hch ihc]
    by_cases hp : e.encloses p = true
    · -- Nothing after the list is around the position.
      have hle := (Extent.encloses_iff.mp hp).2
      rw [if_pos hp, if_pos hp, hnext.filter_encloses_eq_nil (by omega), List.append_nil,
        List.map_cons]
    · rw [if_neg hp, if_neg hp, List.nil_append, ihn]
  | @unclosed lo e children _ _ _ hch _ ihc =>
    rw [extents, enclosing, extents, List.append_nil, filter_encloses_list hch ihc]
    by_cases hp : e.encloses p = true
    · rw [if_pos hp, if_pos hp, List.map_cons]
    · rw [if_neg hp, if_neg hp]
      rfl

/-- Each list around a position lies inside the ones before it. -/
theorem enclosing_pairwise (h : f.Placed lo hi) (p : Nat) :
    (f.enclosing p).Pairwise fun x y => y.1.Within x.1 := by
  induction h using Placed.induction with
  | nil => exact .nil
  | leaf _ _ _ ih => exact ih
  | @closed lo hi e children next _ _ hstart hch hstop _ _ ihc ihn =>
    rw [enclosing]
    split
    · exact .cons (hch.within_of_mem_enclosing hstart (by omega)) ihc
    · exact ihn
  | @unclosed lo e children _ _ hstart hch hstop ihc =>
    rw [enclosing]
    split
    · exact .cons (hch.within_of_mem_enclosing hstart (by omega)) ihc
    · exact .nil

/-- What is around a position is what is around the opening delimiter of the innermost list there, and
    that list. -/
theorem enclosing_opening (h : f.Placed lo hi) {p : Nat} {x : Extent × Forest}
    (hx : f.innermost? p = some x) : f.enclosing p = f.enclosing x.1.opening ++ [x] := by
  induction h using Placed.induction with
  | nil => exact nomatch hx
  | leaf _ _ _ ih => exact ih hx
  | @closed lo hi e children next _ _ _ hch hstop _ hnext ihc ihn =>
    have hin := hch.le
    by_cases hp : e.encloses p = true
    · exact enclosing_list_innermost hch (hnext.enclosing_eq_nil (by omega)) hp hx ihc
    · -- The innermost list opens after this one.
      rw [innermost?_list, if_neg hp] at hx
      have hb := hnext.extents_bounds _ (mem_extents_of_mem_enclosing (List.mem_of_getLast? hx))
      have hout : ¬ e.encloses x.1.opening = true := by
        rw [Extent.encloses_iff]
        omega
      rw [enclosing, enclosing, if_neg hp, if_neg hout, ihn hx]
  | @unclosed lo e children _ _ _ hch _ ihc =>
    by_cases hp : e.encloses p = true
    · exact enclosing_list_innermost hch rfl hp hx ihc
    · rw [innermost?_list, if_neg hp] at hx
      exact nomatch hx

/-- The innermost list around a position lies within all lists around it. -/
theorem within_of_innermost (h : f.Placed lo hi) {p : Nat} {x : Extent × Forest}
    (hx : f.innermost? p = some x) : ∀ y ∈ f.enclosing p, x.1.Within y.1 := by
  have hpairwise := h.enclosing_pairwise p
  rw [h.enclosing_opening hx, List.pairwise_append] at hpairwise
  rw [h.enclosing_opening hx]
  intro y hy
  cases List.mem_append.mp hy with
  | inl hy => exact hpairwise.2.2 y hy x (List.mem_singleton_self x)
  | inr hy =>
    obtain rfl := List.mem_singleton.mp hy
    exact y.1.within_refl

end Placed

end Forest

namespace Document

/-- How many lists have a position inside. -/
def nesting (doc : Document) (p : Nat) : Nat :=
  doc.forest.lists.countP fun x => x.extent.encloses p

/-- The lists around a position, from the outside in. -/
theorem filter_lists_encloses (doc : Document) (p : Nat) :
    (doc.forest.lists.filter (·.extent.encloses p)).map (·.extent) =
      (doc.forest.enclosing p).map (·.1) := by
  rw [← doc.placed_forest.filter_encloses p, Forest.extents_eq, List.filter_map]
  rfl

/-- The depth of a position is the number of lists around it. -/
theorem depth_eq_nesting (doc : Document) (p : Nat) : doc.forest.depth p = doc.nesting p := by
  have h := congrArg List.length (doc.filter_lists_encloses p)
  rw [List.length_map, List.length_map] at h
  rw [nesting, List.countP_eq_length_filter, h, Forest.depth]

end Document

end SExprNav
