import SExprNav.Proofs.Forest.Nodes

/-!
# The orders of a forest

In preorder, a list comes before what is inside it, and in postorder after it. For a forest that is
placed, the first is the order in which the expressions start, and if all lists are closed, the
second is the order in which they end.

## Key results

- `Forest.nodes_span`: the preorder has all expressions of the forest
- `Forest.postorder_perm_preorder`: so has the postorder
- `Forest.Placed.preorder_pairwise`: the preorder goes by the starts
- `Forest.Placed.postorder_pairwise`: the postorder goes by the ends
-/

namespace SExprNav.Forest

/-- All expressions of a forest, each list before what is inside it. -/
def preorder : Forest → List Span
  | .nil => []
  | .leaf start stop next => ⟨start, stop, true, false⟩ :: next.preorder
  | .list e children next => e.span :: (children.preorder ++ next.preorder)

/-- All expressions of a forest, each list after what is inside it. -/
def postorder : Forest → List Span
  | .nil => []
  | .leaf start stop next => ⟨start, stop, true, false⟩ :: next.postorder
  | .list e children next => children.postorder ++ e.span :: next.postorder

/-- All lists are closed, and none has quote marks in front. -/
def Plain (f : Forest) : Prop := ∀ e ∈ f.extents, e.closed = true ∧ e.start = e.opening

instance (f : Forest) : Decidable f.Plain :=
  inferInstanceAs (Decidable (∀ e ∈ f.extents, e.closed = true ∧ e.start = e.opening))

/-- The preorder has all expressions of the forest. -/
theorem nodes_span (f : Forest) (p : Option Extent) : (f.nodes p).map (·.span) = f.preorder := by
  induction f generalizing p with
  | nil => rfl
  | leaf start stop next ih => simp [nodes, preorder, ih]
  | list e children next ihc ihn => simp [nodes, preorder, ihc, ihn]

/-- The postorder has the expressions that the preorder has. -/
theorem postorder_perm_preorder (f : Forest) : f.postorder.Perm f.preorder := by
  induction f with
  | nil => exact .nil
  | leaf start stop next ih => exact ih.cons _
  | list e children next ihc ihn =>
    have hmiddle : (children.postorder ++ e.span :: next.postorder).Perm
        (e.span :: (children.postorder ++ next.postorder)) := List.perm_middle
    exact hmiddle.trans ((ihc.append ihn).cons _)

/-- The preorder starts with the first expression of the level. -/
theorem head?_preorder (f : Forest) : f.preorder.head? = f.spans.head? := by
  cases f <;> rfl

/-- The postorder ends with the last expression of the level. -/
theorem getLast?_postorder (f : Forest) : f.postorder.getLast? = f.spans.getLast? := by
  induction f with
  | nil => rfl
  | leaf start stop next ih => rw [postorder, spans, List.getLast?_cons, List.getLast?_cons, ih]
  | list e children next _ ih =>
    rw [postorder, spans, List.getLast?_append, List.getLast?_cons, List.getLast?_cons, ih]
    rfl

namespace Placed

variable {lo hi : Nat} {f : Forest}

/-- Each expression lies where the forest does. -/
theorem preorder_bounds (h : f.Placed lo hi) :
    ∀ s ∈ f.preorder, lo ≤ s.start ∧ s.start < s.stop ∧ s.stop ≤ hi := by
  induction h using Placed.induction with
  | nil => exact nofun
  | leaf hlo hne hnext ih =>
    have hle := hnext.le
    refine List.forall_mem_cons.mpr ⟨⟨hlo, hne, hle⟩, fun s hs => ?_⟩
    have := ih s hs
    omega
  | @closed lo hi e children next _ hlo hstart hch hstop _ hnext ihc ihn =>
    have hinside := hch.le
    have hle := hnext.le
    have hspan : e.span.start = e.start ∧ e.span.stop = e.stop := ⟨rfl, rfl⟩
    simp only [preorder, List.forall_mem_cons, List.forall_mem_append]
    refine ⟨by omega, fun s hs => ?_, fun s hs => ?_⟩
    · have := ihc s hs
      omega
    · have := ihn s hs
      omega
  | @unclosed lo e children _ hlo hstart hch hstop ihc =>
    have hinside := hch.le
    have hspan : e.span.start = e.start ∧ e.span.stop = e.stop := ⟨rfl, rfl⟩
    simp only [preorder, List.forall_mem_cons, List.forall_mem_append]
    refine ⟨by omega, fun s hs => ?_, nofun⟩
    have := ihc s hs
    omega

theorem postorder_bounds (h : f.Placed lo hi) :
    ∀ s ∈ f.postorder, lo ≤ s.start ∧ s.start < s.stop ∧ s.stop ≤ hi :=
  fun s hs => h.preorder_bounds s (f.postorder_perm_preorder.subset hs)

/-- In preorder, expressions come in the order in which they start. -/
theorem preorder_pairwise (h : f.Placed lo hi) :
    f.preorder.Pairwise fun s t => s.start < t.start := by
  induction h using Placed.induction with
  | nil => exact .nil
  | leaf _ hne hnext ih =>
    refine List.pairwise_cons.mpr ⟨fun t ht => ?_, ih⟩
    have := hnext.preorder_bounds t ht
    dsimp only
    omega
  | @closed lo hi e children next _ _ hstart hch hstop _ hnext ihc ihn =>
    have hinside := hch.le
    have hbc := hch.preorder_bounds
    have hbn := hnext.preorder_bounds
    have hspan : e.span.start = e.start := rfl
    rw [preorder, List.pairwise_cons, List.pairwise_append, List.forall_mem_append]
    -- The list starts before what is inside it, and that before what is after it.
    refine ⟨⟨fun t ht => ?_, fun t ht => ?_⟩, ihc, ihn, fun s hs t ht => ?_⟩
    · have := hbc t ht
      omega
    · have := hbn t ht
      omega
    · have := hbc s hs
      have := hbn t ht
      omega
  | @unclosed lo e children _ _ hstart hch _ ihc =>
    have hbc := hch.preorder_bounds
    have hspan : e.span.start = e.start := rfl
    rw [preorder, preorder, List.append_nil, List.pairwise_cons]
    refine ⟨fun t ht => ?_, ihc⟩
    have := hbc t ht
    omega

/-- In postorder, expressions come in the order in which they end, if all lists are closed. -/
theorem postorder_pairwise (h : f.Placed lo hi) (hclosed : ∀ e ∈ f.extents, e.closed = true) :
    f.postorder.Pairwise fun s t => s.stop < t.stop := by
  induction h using Placed.induction with
  | nil => exact .nil
  | leaf _ _ hnext ih =>
    refine List.pairwise_cons.mpr ⟨fun t ht => ?_, ih hclosed⟩
    have := hnext.postorder_bounds t ht
    dsimp only
    omega
  | @closed lo hi e children next _ _ _ hch hstop _ hnext ihc ihn =>
    simp only [extents, List.cons_append, List.forall_mem_cons, List.forall_mem_append] at hclosed
    obtain ⟨-, hclosedc, hclosedn⟩ := hclosed
    have hspan : e.span.stop = e.stop := rfl
    have hinside : ∀ s ∈ children.postorder, s.stop < e.span.stop := by
      intro s hs
      have := hch.postorder_bounds s hs
      omega
    have hafter : ∀ t ∈ next.postorder, e.span.stop < t.stop := by
      intro t ht
      have := hnext.postorder_bounds t ht
      omega
    rw [postorder, List.pairwise_append, List.pairwise_cons]
    refine ⟨ihc hclosedc, ⟨hafter, ihn hclosedn⟩, fun s hs => ?_⟩
    exact List.forall_mem_cons.mpr
      ⟨hinside s hs, fun t ht => Nat.lt_trans (hinside s hs) (hafter t ht)⟩
  | @unclosed lo e children hopen =>
    have := hclosed e (by simp [extents])
    rw [hopen] at this
    cases this

end Placed

end SExprNav.Forest
