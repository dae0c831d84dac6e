import Mathlib.Data.List.Nodup
import Mathlib.Logic.Relation
import SExprNav.Proofs.Forest.Representation

/-!
# Siblings and lists around an expression

The siblings of an expression are those with the same parent, itself among them. The lists around an
expression are its parent and the ancestors of its parent.

## Key results

- `Forest.Placed.siblings_of_level`: the siblings of an expression are a level
- `Forest.Placed.isNext_iff_head?`, `Forest.Placed.isNext_iff_getLast?`: the neighbours of an
  expression
- `Forest.Placed.surrounds_iff`: the lists around an expression from those around its parent
-/

namespace SExprNav.Forest

/-- The expressions with the parent of `n`, in order. -/
def siblings (f : Forest) (n : Node) : List Node := (f.nodes none).filter (·.parent = n.parent)

/-- Whether `m` is the sibling right after `n`. -/
def IsNext (f : Forest) (n m : Node) : Prop := ∃ pre post, f.siblings n = pre ++ n :: m :: post

/-- Whether the list `a` is around the expression `n`: its parent, or an ancestor of its parent. -/
def Surrounds (f : Forest) (a : Extent) (n : Node) : Prop :=
  ∃ p, n.parent = some p ∧ Relation.ReflTransGen f.IsParent a p

/-- Whether `a` is the expression `n` or a list around it. -/
def InLine (f : Forest) (a n : Node) : Prop :=
  a = n ∨ ∃ x ∈ f.lists, f.Surrounds x.extent n ∧ a = x.node

variable {f : Forest} {length : Nat} {m n : Node}

theorem mem_siblings (hn : n ∈ f.nodes none) : n ∈ f.siblings n :=
  List.mem_filter.mpr ⟨hn, decide_eq_true rfl⟩

theorem parent_of_mem_siblings (h : m ∈ f.siblings n) : m.parent = n.parent :=
  of_decide_eq_true (List.mem_filter.mp h).2

/-- Neighbours have the same parent, and so the same siblings. -/
theorem IsNext.parent_eq (h : f.IsNext n m) : m.parent = n.parent := by
  obtain ⟨pre, post, hsplit⟩ := h
  apply parent_of_mem_siblings (f := f)
  rw [hsplit]
  simp

theorem IsNext.siblings_eq (h : f.IsNext n m) : f.siblings m = f.siblings n := by
  unfold siblings
  rw [h.parent_eq]

/-- What holds of an expression and of all lists around it. -/
theorem forall_inLine {P : Node → Prop} : (∀ a, f.InLine a n → P a) ↔
    P n ∧ ∀ x ∈ f.lists, f.Surrounds x.extent n → P x.node := by
  constructor
  · exact fun h => ⟨h n (.inl rfl), fun x hx hsurrounds => h _ (.inr ⟨x, hx, hsurrounds, rfl⟩)⟩
  · rintro ⟨hn, hlists⟩ a (rfl | ⟨x, hx, hsurrounds, rfl⟩)
    · exact hn
    · exact hlists x hx hsurrounds

namespace Placed

/-- The siblings of an expression are the expressions of a level. -/
theorem siblings_of_level (h : f.Placed 0 length) (hn : n ∈ f.nodes none) :
    ∃ g, (n.parent, g) ∈ f.levels ∧ f.siblings n = g.spans.map (⟨n.parent, ·⟩) := by
  obtain ⟨⟨parent, g⟩, hlevel, rfl⟩ := exists_level_of_mem_nodes hn
  exact ⟨g, hlevel, h.nodes_of_level hlevel⟩

/-- No expression is among its siblings twice. -/
theorem siblings_nodup (h : f.Placed 0 length) (hn : n ∈ f.nodes none) : (f.siblings n).Nodup := by
  obtain ⟨g, hg, hsiblings⟩ := h.siblings_of_level hn
  obtain ⟨lo, hi, hplaced, -⟩ := h.level hg
  have hspans : g.spans.Nodup := by
    refine hplaced.spans_pairwise.imp_of_mem fun hs _ hle => ?_
    have hb := hplaced.spans_bounds _ hs
    rintro rfl
    omega
  rw [hsiblings]
  exact hspans.map fun s t hst => congrArg Node.span hst

section Split

variable {pre post : List Node} (h : f.Placed 0 length) (hn : n ∈ f.nodes none)
  (hsplit : f.siblings n = pre ++ n :: post)

include h hn hsplit

/-- There is one place for an expression among its siblings. -/
theorem split_unique {pre' post' : List Node} (hsplit' : f.siblings n = pre' ++ n :: post') :
    pre' = pre ∧ post' = post := by
  -- Nothing on either side is `n` again, so the two splits fall together.
  have hnodup := h.siblings_nodup hn
  rw [hsplit, List.nodup_middle, List.nodup_cons, List.mem_append, not_or] at hnodup
  obtain ⟨hpre, -, hpost⟩ :=
    (List.append_cons_inj_of_notMem hnodup.1.1 hnodup.1.2).mp (hsplit'.symm.trans hsplit).symm
  exact ⟨hpre.symm, hpost.symm⟩

/-- The next sibling of an expression is the first one behind it. -/
theorem isNext_iff_head? : f.IsNext n m ↔ post.head? = some m := by
  rw [List.head?_eq_some_iff]
  constructor
  · rintro ⟨pre', post', hnext⟩
    exact ⟨post', (h.split_unique hn hsplit hnext).2.symm⟩
  · rintro ⟨post', rfl⟩
    exact ⟨pre, post', hsplit⟩

/-- An expression is the next sibling of the last one in front of it. -/
theorem isNext_iff_getLast? : f.IsNext m n ↔ pre.getLast? = some m := by
  rw [List.getLast?_eq_some_iff]
  constructor
  · intro hm
    -- The siblings of `m` are those of `n`.
    have hsiblings := hm.siblings_eq
    obtain ⟨pre', post', hnext⟩ := hm
    rw [← hsiblings, List.append_cons] at hnext
    exact ⟨pre', (h.split_unique hn hsplit hnext).1.symm⟩
  · rintro ⟨pre', rfl⟩
    have hmem : m ∈ f.siblings n := by
      rw [hsplit]
      simp
    refine ⟨pre', post, ?_⟩
    unfold siblings at hsplit ⊢
    rw [parent_of_mem_siblings hmem, hsplit, List.append_assoc]
    rfl

end Split

/-- There is one list in each place. -/
theorem eq_of_extent_eq (h : f.Placed 0 length) {x y : Entry} (hx : x ∈ f.lists) (hy : y ∈ f.lists)
    (hextent : x.extent = y.extent) : x = y := by
  have hnodup := h.extents_nodup
  rw [extents_eq] at hnodup
  exact List.inj_on_of_nodup_map hnodup hx hy hextent

/-- The lists around an expression are its parent and the lists around that. -/
theorem surrounds_iff (h : f.Placed 0 length) {y : Entry} (hy : y ∈ f.lists)
    (hparent : n.parent = some y.extent) {a : Extent} :
    f.Surrounds a n ↔ a = y.extent ∨ f.Surrounds a y.node := by
  constructor
  · rintro ⟨p, hp, hchain⟩
    obtain rfl : y.extent = p := Option.some.inj (hparent.symm.trans hp)
    cases hchain with
    | refl => exact .inl rfl
    | @tail b _ hchain hlast =>
      -- The last step leads from `b` to a list with the place of `y`, which is `y` itself.
      obtain ⟨x, hx, hb, hextent⟩ := hlast
      obtain rfl := h.eq_of_extent_eq hx hy hextent
      exact .inr ⟨b, hb, hchain⟩
  · rintro (rfl | ⟨p, hp, hchain⟩)
    · exact ⟨_, hparent, .refl⟩
    · exact ⟨_, hparent, hchain.tail ⟨y, hy, hp, rfl⟩⟩

end Placed

end SExprNav.Forest
