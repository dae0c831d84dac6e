import SExprNav.Proofs.Forest.Level
import SExprNav.Proofs.Forest.Reading

/-!
# The forest of a text

What a forest has to do with the tokens that it was read from, and how it lies in the text, as one
invariant: `Forest.Represents`. Texts may be unbalanced in either way, and quote marks may stand
before nothing.

## Key results

- `Forest.Placed.opening_lt_of_isAncestor`, `Forest.Placed.unclosed_of_isAncestor`: what a list
  has in common with the lists around it
- `Document.forest_represents`: the forest of a document represents its tokens
-/

namespace SExprNav

namespace Forest

open Token (Partners)

/-- The forest says what there is to say about the tokens of a text with `length` characters. -/
structure Represents (length : Nat) (tokens : List Token) (f : Forest) : Prop where
  /-- There is one list for each opening delimiter, and it opens there. -/
  openings : f.lists.map (·.extent.opening) =
    (tokens.filter fun t => t.kind = .opener).map (·.start)
  /-- There is one expression without children for each atom and each string. -/
  leaves : List.Forall₂ (fun n t => LeafOf n.span t)
    ((f.nodes none).filter (!·.span.isList)) (tokens.filter (·.isLeaf))
  /-- The other expressions are the lists. -/
  lists : (f.nodes none).filter (·.span.isList) = f.lists.map (·.node)
  /-- The lists are found in the order of their opening delimiters. -/
  ordered : f.lists.Pairwise fun x y => x.extent.opening < y.extent.opening
  /-- The list around a list is one of the lists itself. -/
  parents : ∀ x ∈ f.lists, ∀ p ∈ x.parent, ∃ y ∈ f.lists, y.extent = p
  /-- The lists around a list open before it. -/
  ancestors : ∀ a e, f.IsAncestor a e → a.opening < e.opening
  /-- A list has its delimiters in order, and lies in the text. -/
  bounds : ∀ x ∈ f.lists, x.extent.start ≤ x.extent.opening ∧
    x.extent.opening < x.extent.closing ∧ x.extent.closing ≤ x.extent.stop ∧
    x.extent.stop ≤ length
  /-- The expressions of a level are those that have its list for their parent. -/
  children : ∀ ℓ ∈ f.levels, (f.nodes none).filter (·.parent = ℓ.1) = ℓ.2.spans.map (⟨ℓ.1, ·⟩)
  /-- The expressions of a level come one after another, and none of them is empty. -/
  disjoint : ∀ ℓ ∈ f.levels, (ℓ.2.spans.Pairwise fun s t => s.stop ≤ t.start) ∧
    ∀ s ∈ ℓ.2.spans, s.start < s.stop
  /-- The expressions of a level lie between the delimiters of its list, or in the text if the level
      is the top level. -/
  inside : ∀ ℓ ∈ f.levels, ∀ s ∈ ℓ.2.spans, s.stop ≤ length ∧
    ∀ p ∈ ℓ.1, p.opening < s.start ∧ s.stop ≤ p.closing
  /-- A list is closed exactly if the closing delimiter where it ends is the partner of its opening
      delimiter. -/
  closed : ∀ x ∈ f.lists, x.extent.closed = true ↔
    ∃ o c, Partners tokens o c ∧ o.start = x.extent.opening ∧ c.start = x.extent.closing ∧
      c.stop = x.extent.stop
  /-- A list that nothing closes reaches to the end of the text and is the last of its level. -/
  unclosed : ∀ x ∈ f.lists, x.extent.closed = false →
    x.extent.closing = length ∧ x.extent.stop = length ∧
      ((f.nodes none).filter (·.parent = x.parent)).getLast? = some x.node
  /-- Nothing closes the lists around a list that nothing closes. -/
  unclosedAncestors : ∀ a e, f.IsAncestor a e → e.closed = false → a.closed = false

theorem extents_eq (f : Forest) : f.extents = f.lists.map (·.extent) := (entries_extent f none).symm

theorem node_mem_nodes {f : Forest} {x : Entry} (hx : x ∈ f.lists) : x.node ∈ f.nodes none := by
  have h : x.node ∈ (f.nodes none).filter (·.span.isList) := by
    rw [nodes_lists]
    exact List.mem_map.mpr ⟨x, hx, rfl⟩
  exact (List.mem_filter.mp h).1

/-- The list around an expression is one of the lists of the forest. -/
theorem exists_entry_of_parent {f : Forest} {n : Node} {e : Extent} (hn : n ∈ f.nodes none)
    (hparent : n.parent = some e) : ∃ y ∈ f.lists, y.extent = e := by
  rcases parent_of_mem_nodes hn with hnone | ⟨e', he, hsome⟩
  · rw [hparent] at hnone
    exact nomatch hnone
  · obtain rfl : e = e' := Option.some.inj (hparent.symm.trans hsome)
    rw [extents_eq] at he
    exact List.mem_map.mp he

/-- An expression is one of a level. -/
theorem exists_level_of_mem_nodes {f : Forest} {n : Node} (hn : n ∈ f.nodes none) :
    ∃ ℓ ∈ f.levels, ℓ.1 = n.parent := by
  cases hparent : n.parent with
  | none => exact ⟨(none, f), List.mem_cons_self, rfl⟩
  | some e =>
    obtain ⟨y, hy, rfl⟩ := exists_entry_of_parent hn hparent
    exact ⟨(some y.extent, y.children),
      List.mem_cons_of_mem _ (List.mem_map.mpr ⟨y, hy, rfl⟩), rfl⟩

namespace Placed

variable {length : Nat} {f : Forest}

theorem isParent (h : f.Placed 0 length) {p e : Extent} (hp : f.IsParent p e) :
    p.opening < e.opening ∧ (e.closed = false → p.closed = false) := by
  obtain ⟨x, hx, hparent, rfl⟩ := hp
  rcases h.parent_of_entry hx with hnone | ⟨q, -, hq, hlt, hclosed⟩
  · rw [hparent] at hnone
    exact nomatch hnone
  · rw [hparent] at hq
    cases hq
    exact ⟨hlt, hclosed⟩

/-- The lists around a list open before it. -/
theorem opening_lt_of_isAncestor (h : f.Placed 0 length) {a e : Extent} (ha : f.IsAncestor a e) :
    a.opening < e.opening := by
  induction ha with
  | single hp => exact (h.isParent hp).1
  | tail _ hp ih => exact Nat.lt_trans ih (h.isParent hp).1

/-- Nothing closes the lists around a list that nothing closes. -/
theorem unclosed_of_isAncestor (h : f.Placed 0 length) {a e : Extent} (ha : f.IsAncestor a e)
    (hopen : e.closed = false) : a.closed = false := by
  induction ha with
  | single hp => exact (h.isParent hp).2 hopen
  | tail _ hp ih => exact ih ((h.isParent hp).2 hopen)

/-- A list that nothing closes is the last of its level. -/
theorem last_of_level (h : f.Placed 0 length) {x : Entry} (hx : x ∈ f.lists)
    (hopen : x.extent.closed = false) :
    ((f.nodes none).filter (·.parent = x.parent)).getLast? = some x.node := by
  obtain ⟨ℓ, hℓ, (hparent : ℓ.1 = x.parent)⟩ := exists_level_of_mem_nodes (node_mem_nodes hx)
  have hlevel := h.nodes_of_level hℓ
  rw [hparent] at hlevel
  have hmem : x.node ∈ (f.nodes none).filter (·.parent = x.parent) :=
    List.mem_filter.mpr ⟨node_mem_nodes hx, decide_eq_true rfl⟩
  rw [hlevel] at hmem
  obtain ⟨s, hs, hnode⟩ := List.mem_map.mp hmem
  have hspan : s = x.extent.span := congrArg Node.span hnode
  obtain ⟨lo, hi, hplaced, -⟩ := h.level hℓ
  have hlast := (hplaced.last_of_unclosed hs (by rw [hspan]; exact hopen)).1
  rw [hlevel, List.getLast?_map, hlast]
  exact congrArg some hnode

end Placed

end Forest

/-- The forest of a document represents its tokens. -/
theorem Document.forest_represents (doc : Document) :
    doc.forest.Represents doc.length doc.tokens := by
  have hlaid := doc.laid_tokens
  have hforest := doc.forest_eq_ofTokens
  have hplaced := doc.placed_forest
  have hextent : ∀ x ∈ doc.forest.lists, x.extent ∈ doc.forest.extents :=
    fun x hx => Forest.mem_extents_of_mem_entries hx
  constructor
  case openings =>
    have := Forest.openings_ofTokens doc.length doc.tokens
    rwa [← hforest, Forest.extents_eq, List.map_map] at this
  case leaves =>
    have := Forest.leaves_ofTokens hlaid
    rwa [← hforest, ← Forest.nodes_leaves _ none, List.forall₂_map_left_iff] at this
  case lists => exact Forest.nodes_lists doc.forest none
  case ordered =>
    have := hplaced.extents_pairwise
    rwa [Forest.extents_eq, List.pairwise_map] at this
  case parents =>
    intro x hx p hp
    exact Forest.exists_entry_of_parent (Forest.node_mem_nodes hx) hp
  case ancestors => exact fun a e ha => hplaced.opening_lt_of_isAncestor ha
  case bounds => exact fun x hx => (hplaced.extents_bounds _ (hextent x hx)).2
  case children => exact fun ℓ hℓ => hplaced.nodes_of_level hℓ
  case disjoint =>
    intro ℓ hℓ
    obtain ⟨lo, hi, hlevel, -⟩ := hplaced.level hℓ
    exact ⟨hlevel.spans_pairwise, fun s hs => (hlevel.spans_bounds s hs).2.1⟩
  case inside =>
    intro ℓ hℓ s hs
    obtain ⟨lo, hi, hlevel, hlength, hparent⟩ := hplaced.level hℓ
    have hb := hlevel.spans_bounds s hs
    refine ⟨by omega, fun p hp => ?_⟩
    have := hparent p hp
    omega
  case closed =>
    intro x hx
    constructor
    · have := Forest.partners_of_closed doc.length doc.tokens
      rw [← hforest] at this
      exact this x.extent (hextent x hx)
    · rintro ⟨o, c, hoc, -, hclosing, -⟩
      cases hopen : x.extent.closed with
      | true => rfl
      | false =>
        -- No token starts where a list ends that nothing closes.
        have hend := (hplaced.reach_of_unclosed _ (hextent x hx) hopen).1
        have hb := hlaid.bounds c hoc.mem_closer
        omega
  case unclosed =>
    intro x hx hopen
    obtain ⟨hclosing, hstop⟩ := hplaced.reach_of_unclosed _ (hextent x hx) hopen
    exact ⟨hclosing, hstop, hplaced.last_of_level hx hopen⟩
  case unclosedAncestors => exact fun a e ha => hplaced.unclosed_of_isAncestor ha

end SExprNav
