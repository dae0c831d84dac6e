import SExprNav.Proofs.Forest.Placed

/-!
# The expressions of a forest

`Forest.nodes` shows all expressions of a forest, each with the list around it, and
`Forest.extents` shows where the lists lie. In a forest that is placed, the lists are found in the
order of their opening delimiters, and what a list contains are the expressions that have it for
their parent.

## Key results

- `Forest.Placed.extents_bounds`, `Forest.Placed.extents_pairwise`: how the lists of a forest lie
- `Forest.Placed.children`: how the expressions inside a list lie
- `Forest.Placed.parent_of_entry`: how a list lies in the list around it
- `Forest.Placed.nodes_of_level`: the expressions of a level are those with its list for parent
-/

namespace SExprNav

/-- A list as its own level sees it. -/
def Extent.span (e : Extent) : Span := ⟨e.start, e.stop, e.closed, true⟩

namespace Forest

/-- An expression with the list around it. -/
structure Node where
  /-- The innermost list around the expression, if any. -/
  parent : Option Extent
  span : Span
deriving DecidableEq, Repr

/-- All expressions of a forest that lies inside `parent`, each list before what is inside it. -/
def nodes (parent : Option Extent) : Forest → List Node
  | .nil => []
  | .leaf start stop next => ⟨parent, ⟨start, stop, true, false⟩⟩ :: next.nodes parent
  | .list e children next =>
    ⟨parent, e.span⟩ :: children.nodes (some e) ++ next.nodes parent

/-- A list of a forest as an expression. -/
def Entry.node (x : Entry) : Node := ⟨x.parent, x.extent.span⟩

/-- Where the lists of a forest lie, in the order of their opening delimiters. -/
def extents : Forest → List Extent
  | .nil => []
  | .leaf _ _ next => next.extents
  | .list e children next => e :: children.extents ++ next.extents

/-- The atoms and strings of a forest. -/
def leaves : Forest → List Span
  | .nil => []
  | .leaf start stop next => ⟨start, stop, true, false⟩ :: next.leaves
  | .list _ children next => children.leaves ++ next.leaves

/-- The levels of a forest: the forest itself, and what is inside each of its lists. -/
def levels (f : Forest) : List (Option Extent × Forest) :=
  (none, f) :: f.lists.map fun x => (some x.extent, x.children)

/-- Whether `p` is the innermost list around the list `e`. -/
def IsParent (f : Forest) (p e : Extent) : Prop :=
  ∃ x ∈ f.lists, x.parent = some p ∧ x.extent = e

/-- Whether `a` is one of the lists around the list `e`. -/
def IsAncestor (f : Forest) : Extent → Extent → Prop := Relation.TransGen f.IsParent

@[simp] theorem extents_append (f g : Forest) : (f ++ g).extents = f.extents ++ g.extents := by
  induction f with
  | nil => rfl
  | leaf start stop next ih => exact ih
  | list e children next _ ih => simp [extents, ih]

@[simp] theorem leaves_append (f g : Forest) : (f ++ g).leaves = f.leaves ++ g.leaves := by
  induction f with
  | nil => rfl
  | leaf start stop next ih => simp [leaves, ih]
  | list e children next _ ih => simp [leaves, ih]

theorem entries_extent (f : Forest) (p : Option Extent) :
    (f.entries p).map (·.extent) = f.extents := by
  induction f generalizing p with
  | nil => rfl
  | leaf start stop next ih => exact ih p
  | list e children next ihc ihn => simp [entries, extents, ihc, ihn]

theorem mem_extents_of_mem_entries {f : Forest} {p : Option Extent} {x : Entry}
    (h : x ∈ f.entries p) : x.extent ∈ f.extents := by
  rw [← entries_extent f p]
  exact List.mem_map.mpr ⟨x, h, rfl⟩

/-- The expressions that are lists are the lists of the forest. -/
theorem nodes_lists (f : Forest) (p : Option Extent) :
    (f.nodes p).filter (·.span.isList) = (f.entries p).map (·.node) := by
  induction f generalizing p with
  | nil => rfl
  | leaf start stop next ih => simp [nodes, entries, ih]
  | list e children next ihc ihn => simp [nodes, entries, ihc, ihn, Entry.node, Extent.span]

/-- The expressions that are no lists are the leaves of the forest. -/
theorem nodes_leaves (f : Forest) (p : Option Extent) :
    ((f.nodes p).filter (!·.span.isList)).map (·.span) = f.leaves := by
  induction f generalizing p with
  | nil => rfl
  | leaf start stop next ih => simp [nodes, leaves, ih]
  | list e children next ihc ihn => simp [nodes, leaves, ihc, ihn, Extent.span]

/-! ## Parents -/

theorem parent_of_mem_nodes {f : Forest} {p : Option Extent} {n : Node} (h : n ∈ f.nodes p) :
    n.parent = p ∨ ∃ e ∈ f.extents, n.parent = some e := by
  induction f generalizing p with
  | nil => exact nomatch h
  | leaf start stop next ih =>
    rcases List.mem_cons.mp h with rfl | h
    · exact .inl rfl
    · exact ih h
  | list e children next ihc ihn =>
    simp only [nodes, List.cons_append, List.mem_cons, List.mem_append] at h
    simp only [extents, List.cons_append, List.mem_cons, List.mem_append]
    rcases h with rfl | h | h
    · exact .inl rfl
    · rcases ihc h with h | ⟨e', he', h⟩
      · exact .inr ⟨e, .inl rfl, h⟩
      · exact .inr ⟨e', .inr (.inl he'), h⟩
    · rcases ihn h with h | ⟨e', he', h⟩
      · exact .inl h
      · exact .inr ⟨e', .inr (.inr he'), h⟩

/-- No expression of a forest has a list for its parent that is neither the one around the forest
    nor in it. -/
theorem nodes_filter_foreign {f : Forest} {p q : Option Extent} (hpq : p ≠ q)
    (hq : ∀ e ∈ f.extents, some e ≠ q) : (f.nodes p).filter (·.parent = q) = [] := by
  rw [List.filter_eq_nil_iff]
  intro n hn hparent
  have hparent : n.parent = q := of_decide_eq_true hparent
  rcases parent_of_mem_nodes hn with h | ⟨e, he, h⟩
  · exact hpq (h.symm.trans hparent)
  · exact hq e he (h.symm.trans hparent)

/-- The expressions whose parent is the list around the forest are those of its own level. -/
theorem nodes_filter_own {f : Forest} {p : Option Extent} (hp : ∀ e ∈ f.extents, some e ≠ p) :
    (f.nodes p).filter (·.parent = p) = f.spans.map (⟨p, ·⟩) := by
  induction f with
  | nil => rfl
  | leaf start stop next ih => simp [nodes, spans, ih hp]
  | list e children next _ ih =>
    simp only [extents, List.cons_append, List.forall_mem_cons, List.forall_mem_append] at hp
    obtain ⟨he, hchildren, hnext⟩ := hp
    simp [nodes, spans, Extent.span, nodes_filter_foreign he hchildren, ih hnext]

/-- The expressions whose parent is a list of the forest are those inside that list. -/
theorem nodes_filter_entry {f : Forest} {p : Option Extent} (hnodup : f.extents.Nodup)
    (hp : ∀ e ∈ f.extents, p ≠ some e) {x : Entry} (hx : x ∈ f.entries p) :
    (f.nodes p).filter (·.parent = some x.extent) = x.children.spans.map (⟨some x.extent, ·⟩) := by
  induction f generalizing p with
  | nil => exact nomatch hx
  | leaf start stop next ih =>
    have hne := hp x.extent (mem_extents_of_mem_entries hx)
    simp [nodes, hne, ih hnodup hp hx]
  | list e children next ihc ihn =>
    have hne := hp x.extent (mem_extents_of_mem_entries hx)
    simp only [extents, List.cons_append, List.forall_mem_cons, List.forall_mem_append] at hp
    simp only [extents, List.cons_append, List.nodup_cons, List.mem_append, not_or,
      List.nodup_append] at hnodup
    obtain ⟨he, hchildren, hnext⟩ := hp
    obtain ⟨⟨hec, hen⟩, hnodupc, hnodupn, hdisjoint⟩ := hnodup
    simp only [entries, List.cons_append, List.mem_cons, List.mem_append] at hx
    simp only [nodes, List.cons_append, List.filter_cons, hne, decide_false, Bool.false_eq_true,
      if_false, List.filter_append]
    -- The list is this one, or inside this one, or after it. In each case the expressions of the
    -- other two parts have other lists for their parents.
    rcases hx with rfl | hx | hx
    · have hown : ∀ e' ∈ children.extents, some e' ≠ some e := by
        rintro e' he' ⟨⟩
        exact hec he'
      have hforeign : ∀ e' ∈ next.extents, some e' ≠ some e := by
        rintro e' he' ⟨⟩
        exact hen he'
      rw [nodes_filter_own hown, nodes_filter_foreign hne hforeign, List.append_nil]
    · have hmem := mem_extents_of_mem_entries hx
      have hother : ∀ e' ∈ children.extents, some e ≠ some e' := by
        rintro e' he' ⟨⟩
        exact hec he'
      have hforeign : ∀ e' ∈ next.extents, some e' ≠ some x.extent := by
        rintro e' he' heq
        exact hdisjoint _ hmem _ he' (Option.some.inj heq).symm
      rw [ihc hnodupc hother hx, nodes_filter_foreign hne hforeign, List.append_nil]
    · have hmem := mem_extents_of_mem_entries hx
      have hother : some e ≠ some x.extent := by
        intro heq
        rw [Option.some.inj heq] at hen
        exact hen hmem
      have hforeign : ∀ e' ∈ children.extents, some e' ≠ some x.extent := by
        rintro e' he' heq
        exact hdisjoint _ he' _ hmem (Option.some.inj heq)
      rw [nodes_filter_foreign hother hforeign, ihn hnodupn hnext hx, List.nil_append]

/-! ## The lists of a placed forest -/

theorem AllClosed.extents {f : Forest} (h : f.AllClosed) : ∀ e ∈ f.extents, e.closed = true := by
  induction f with
  | nil => simp [Forest.extents]
  | leaf start stop next ih => exact ih h
  | list e children next ihc ihn =>
    obtain ⟨he, hc, hn⟩ := h
    simp only [Forest.extents, List.cons_append, List.forall_mem_cons, List.forall_mem_append]
    exact ⟨he, ihc hc, ihn hn⟩

/-- The list around `x` is a list of the forest. It opens first, and nothing closes it if nothing
    closes `x`. -/
def HasParent (f : Forest) (x : Entry) : Prop :=
  ∃ e ∈ f.extents, x.parent = some e ∧ e.opening < x.extent.opening ∧
    (x.extent.closed = false → e.closed = false)

namespace Placed

variable {lo hi : Nat} {f : Forest}

/-- Each list starts with its quote marks, then has its two delimiters, and is inside the forest. -/
theorem extents_bounds (h : f.Placed lo hi) : ∀ e ∈ f.extents, lo ≤ e.start ∧ e.start ≤ e.opening ∧
    e.opening < e.closing ∧ e.closing ≤ e.stop ∧ e.stop ≤ hi := by
  induction h using Placed.induction with
  | nil => exact nofun
  | leaf hlo hne _ ih =>
    intro e he
    have := ih e he
    omega
  | closed _ hlo hstart hch hstop _ hnext ihc ihn =>
    simp only [extents, List.cons_append, List.forall_mem_cons, List.forall_mem_append]
    have hinside := hch.le
    have hle := hnext.le
    refine ⟨by omega, fun e' he' => ?_, fun e' he' => ?_⟩
    · have := ihc e' he'
      omega
    · have := ihn e' he'
      omega
  | unclosed _ hlo hstart hch hstop ihc =>
    simp only [extents, List.cons_append, List.forall_mem_cons, List.forall_mem_append]
    have hinside := hch.le
    refine ⟨by omega, fun e' he' => ?_, nofun⟩
    have := ihc e' he'
    omega

/-- The lists are found in the order of their opening delimiters. -/
theorem extents_pairwise (h : f.Placed lo hi) :
    f.extents.Pairwise fun d e => d.opening < e.opening := by
  induction h using Placed.induction with
  | nil => exact .nil
  | leaf _ _ _ ih => exact ih
  | closed _ _ _ hch hstop _ hnext ihc ihn =>
    have hinside := hch.le
    have hbc := hch.extents_bounds
    have hbn := hnext.extents_bounds
    rw [extents, List.cons_append, List.pairwise_cons, List.pairwise_append,
      List.forall_mem_append]
    -- The list opens before those inside it, and these open before those after it.
    refine ⟨⟨fun d hd => ?_, fun d hd => ?_⟩, ihc, ihn, fun d hd d' hd' => ?_⟩
    · have := hbc d hd
      omega
    · have := hbn d hd
      omega
    · have := hbc d hd
      have := hbn d' hd'
      omega
  | unclosed _ _ _ hch _ ihc =>
    have hbc := hch.extents_bounds
    rw [extents, List.cons_append, extents, List.append_nil, List.pairwise_cons]
    refine ⟨fun d hd => ?_, ihc⟩
    have := hbc d hd
    omega

theorem extents_nodup (h : f.Placed lo hi) : f.extents.Nodup := by
  refine h.extents_pairwise.imp ?_
  rintro d _ hlt rfl
  exact Nat.lt_irrefl _ hlt

/-- A list that nothing closes reaches as far as the forest does. -/
theorem reach_of_unclosed (h : f.Placed lo hi) :
    ∀ e ∈ f.extents, e.closed = false → e.closing = hi ∧ e.stop = hi := by
  induction h using Placed.induction with
  | nil => exact nofun
  | leaf _ _ _ ih => exact ih
  | closed hc _ _ _ _ hall _ _ ihn =>
    simp only [extents, List.cons_append, List.forall_mem_cons, List.forall_mem_append]
    refine ⟨fun hopen => ?_, fun e' he' hopen => ?_, ihn⟩
    · rw [hc] at hopen
      cases hopen
    · rw [hall.extents e' he'] at hopen
      cases hopen
  | unclosed _ _ _ _ hstop ihc =>
    simp only [extents, List.cons_append, List.forall_mem_cons, List.forall_mem_append]
    exact ⟨fun _ => ⟨trivial, hstop⟩, ihc, nofun⟩

/-- What is inside a list lies between its delimiters. -/
theorem children (h : f.Placed lo hi) {p : Option Extent} {x : Entry} (hx : x ∈ f.entries p) :
    x.children.Placed (x.extent.opening + 1) x.extent.closing := by
  induction h using Placed.induction generalizing p with
  | nil => exact nomatch hx
  | leaf _ _ _ ih => exact ih hx
  | closed _ _ _ hch _ _ _ ihc ihn =>
    simp only [entries, List.cons_append, List.mem_cons, List.mem_append] at hx
    rcases hx with rfl | hx | hx
    · exact hch
    · exact ihc hx
    · exact ihn hx
  | unclosed _ _ _ hch _ ihc =>
    simp only [entries, List.append_nil, List.mem_cons] at hx
    rcases hx with rfl | hx
    · exact hch
    · exact ihc hx

/-- The list around a list of the forest is the one around the forest, or it is in the forest. -/
theorem parent_of_entry (h : f.Placed lo hi) {p : Option Extent} {x : Entry}
    (hx : x ∈ f.entries p) : x.parent = p ∨ HasParent f x := by
  induction h using Placed.induction generalizing p with
  | nil => exact nomatch hx
  | leaf _ _ _ ih => exact ih hx
  | @closed lo hi e children next _ _ _ hch _ hall _ ihc ihn =>
    have hmem : ∀ {x}, (HasParent children x ∨ HasParent next x) →
        HasParent (.list e children next) x := by
      rintro x (⟨e', he', h⟩ | ⟨e', he', h⟩)
      · exact ⟨e', by simp [extents, he'], h⟩
      · exact ⟨e', by simp [extents, he'], h⟩
    simp only [entries, List.cons_append, List.mem_cons, List.mem_append] at hx
    rcases hx with rfl | hx | hx
    · exact .inl rfl
    · -- A list that nothing closes is not inside a closed one.
      have hxe := mem_extents_of_mem_entries hx
      have hb := hch.extents_bounds _ hxe
      rcases ihc hx with hp | hp
      · refine .inr ⟨e, by simp [extents], hp, by omega, fun hopen => ?_⟩
        rw [hall.extents _ hxe] at hopen
        cases hopen
      · exact .inr (hmem (.inl hp))
    · rcases ihn hx with hp | hp
      · exact .inl hp
      · exact .inr (hmem (.inr hp))
  | @unclosed lo e children hc _ _ hch _ ihc =>
    simp only [entries, List.append_nil, List.mem_cons] at hx
    rcases hx with rfl | hx
    · exact .inl rfl
    · have hb := hch.extents_bounds _ (mem_extents_of_mem_entries hx)
      rcases ihc hx with hp | ⟨e', he', h⟩
      · exact .inr ⟨e, by simp [extents], hp, by omega, fun _ => hc⟩
      · exact .inr ⟨e', by simp [extents, he'], h⟩

/-- The expressions of a level are those that have its list for their parent. -/
theorem nodes_of_level (h : f.Placed lo hi) {ℓ : Option Extent × Forest} (hℓ : ℓ ∈ f.levels) :
    (f.nodes none).filter (·.parent = ℓ.1) = ℓ.2.spans.map (⟨ℓ.1, ·⟩) := by
  rcases List.mem_cons.mp hℓ with rfl | hℓ
  · exact nodes_filter_own (by simp)
  · obtain ⟨x, hx, rfl⟩ := List.mem_map.mp hℓ
    exact nodes_filter_entry h.extents_nodup (by simp) hx

end Placed

end Forest

end SExprNav
