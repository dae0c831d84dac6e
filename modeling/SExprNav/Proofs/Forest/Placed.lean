import SExprNav.Document
import SExprNav.Proofs.Token.Layout

/-!
# How a forest lies in its text

The expressions of a level lie one after another, and those inside a list lie between its
delimiters. A list that nothing closes reaches as far as its level does and ends it; hence there is
none inside a list that is closed. `Forest.Placed` says this of a forest between two positions.

## Key results

- `Forest.placed_ofTokens`: the forest that is read from tokens is placed where the tokens lie
- `Document.placed_forest`: the forest of a document is placed in its text
- `Forest.Placed.induction`: induction over a placed forest, closed and unclosed lists apart
- `Forest.Placed.append`: forests that are placed one after another can be joined
- `Forest.Placed.spans_bounds`, `Forest.Placed.spans_pairwise`: how the expressions of a level lie
- `Forest.Placed.last_of_unclosed`: a list that nothing closes is the last of its level
-/

namespace SExprNav

namespace Forest

/-- Every list of the forest is closed. -/
def AllClosed : Forest → Prop
  | .nil => True
  | .leaf _ _ next => next.AllClosed
  | .list e children next => e.closed = true ∧ children.AllClosed ∧ next.AllClosed

/-- The forest lies between `lo` and `hi`. -/
def Placed : (lo hi : Nat) → Forest → Prop
  | lo, hi, .nil => lo ≤ hi
  | lo, hi, .leaf start stop next => lo ≤ start ∧ start < stop ∧ next.Placed stop hi
  | lo, hi, .list e children next =>
    lo ≤ e.start ∧ e.start ≤ e.opening ∧ children.Placed (e.opening + 1) e.closing ∧
      if e.closed then e.stop = e.closing + 1 ∧ children.AllClosed ∧ next.Placed e.stop hi
      else e.closing = hi ∧ e.stop = hi ∧ next = .nil

theorem AllClosed.append {f g : Forest} (hf : f.AllClosed) (hg : g.AllClosed) :
    (f ++ g).AllClosed := by
  induction f with
  | nil => exact hg
  | leaf start stop next ih => exact ih hf
  | list e children next _ ih => exact ⟨hf.1, hf.2.1, ih hf.2.2⟩

namespace Placed

variable {lo hi : Nat} {f : Forest}

/-- A closed list in front of a placed forest. -/
theorem closed_iff {e : Extent} {children next : Forest} (hc : e.closed = true) :
    (Forest.list e children next).Placed lo hi ↔
      lo ≤ e.start ∧ e.start ≤ e.opening ∧ children.Placed (e.opening + 1) e.closing ∧
        e.stop = e.closing + 1 ∧ children.AllClosed ∧ next.Placed e.stop hi := by
  rw [Placed, if_pos hc]

/-- A list that nothing closes in front of a placed forest. -/
theorem unclosed_iff {e : Extent} {children next : Forest} (hc : e.closed = false) :
    (Forest.list e children next).Placed lo hi ↔
      lo ≤ e.start ∧ e.start ≤ e.opening ∧ children.Placed (e.opening + 1) e.closing ∧
        e.closing = hi ∧ e.stop = hi ∧ next = .nil := by
  rw [Placed, if_neg (by simp [hc])]

/-- Induction over a placed forest. The last list of a level may be one that nothing closes; all
    other lists are closed, and so are the lists inside them. -/
theorem induction {motive : (lo hi : Nat) → (f : Forest) → f.Placed lo hi → Prop}
    (nil : ∀ {lo hi : Nat} (hle : lo ≤ hi), motive lo hi .nil hle)
    (leaf : ∀ {lo hi start stop : Nat} {next : Forest} (hlo : lo ≤ start) (hne : start < stop)
      (hnext : next.Placed stop hi), motive stop hi next hnext →
      motive lo hi (.leaf start stop next) ⟨hlo, hne, hnext⟩)
    (closed : ∀ {lo hi : Nat} {e : Extent} {children next : Forest} (hc : e.closed = true)
      (hlo : lo ≤ e.start) (hstart : e.start ≤ e.opening)
      (hch : children.Placed (e.opening + 1) e.closing) (hstop : e.stop = e.closing + 1)
      (hall : children.AllClosed) (hnext : next.Placed e.stop hi),
      motive (e.opening + 1) e.closing children hch → motive e.stop hi next hnext →
      motive lo hi (.list e children next)
        ((closed_iff hc).mpr ⟨hlo, hstart, hch, hstop, hall, hnext⟩))
    (unclosed : ∀ {lo : Nat} {e : Extent} {children : Forest} (hc : e.closed = false)
      (hlo : lo ≤ e.start) (hstart : e.start ≤ e.opening)
      (hch : children.Placed (e.opening + 1) e.closing) (hstop : e.stop = e.closing),
      motive (e.opening + 1) e.closing children hch →
      motive lo e.closing (.list e children .nil)
        ((unclosed_iff hc).mpr ⟨hlo, hstart, hch, rfl, hstop, rfl⟩))
    {lo hi : Nat} {f : Forest} (h : f.Placed lo hi) : motive lo hi f h := by
  -- The flag of a list decides which of the two cases for lists it is.
  induction f generalizing lo hi with
  | nil => exact nil h
  | leaf start stop next ih => exact leaf h.1 h.2.1 h.2.2 (ih h.2.2)
  | list e children next ihc ihn =>
    cases hc : e.closed with
    | true =>
      obtain ⟨hlo, hstart, hch, hstop, hall, hnext⟩ := (closed_iff hc).mp h
      exact closed hc hlo hstart hch hstop hall hnext (ihc hch) (ihn hnext)
    | false =>
      obtain ⟨hlo, hstart, hch, rfl, hstop, rfl⟩ := (unclosed_iff hc).mp h
      exact unclosed hc hlo hstart hch hstop (ihc hch)

theorem le (h : f.Placed lo hi) : lo ≤ hi := by
  induction h using Placed.induction with
  | nil hle => exact hle
  | leaf hlo hne _ ih => omega
  | closed _ hlo hstart _ hstop _ _ ihc ihn => omega
  | unclosed _ hlo hstart _ _ ihc => omega

/-- A forest that starts later starts late enough. -/
theorem mono {lo' : Nat} (h : f.Placed lo hi) (hlo : lo' ≤ lo) : f.Placed lo' hi := by
  cases f with
  | nil => exact Nat.le_trans hlo h
  | leaf start stop next => exact ⟨Nat.le_trans hlo h.1, h.2⟩
  | list e children next => exact ⟨Nat.le_trans hlo h.1, h.2⟩

/-- Forests that are placed one after another can be joined, if the first has no list that would
    reach into the second. -/
theorem append {mid : Nat} {g : Forest} (hf : f.Placed lo mid) (hclosed : f.AllClosed)
    (hg : g.Placed mid hi) : (f ++ g).Placed lo hi := by
  induction hf using Placed.induction with
  | nil hle => exact hg.mono hle
  | leaf hlo hne _ ih => exact ⟨hlo, hne, ih hclosed hg⟩
  | closed hc hlo hstart hch hstop hall _ _ ih =>
    have hnext := ih hclosed.2.2 hg
    exact (closed_iff hc).mpr ⟨hlo, hstart, hch, hstop, hall, hnext⟩
  | unclosed hc =>
    -- The first forest would reach into the second one.
    rw [hclosed.1] at hc
    cases hc

/-! ## The expressions of a level -/

/-- Each expression of the level lies between the two positions and is not empty. -/
theorem spans_bounds (h : f.Placed lo hi) :
    ∀ s ∈ f.spans, lo ≤ s.start ∧ s.start < s.stop ∧ s.stop ≤ hi := by
  induction h using Placed.induction with
  | nil => simp [spans]
  | leaf hlo hne hnext ih =>
    have hle := hnext.le
    refine List.forall_mem_cons.mpr ⟨⟨hlo, hne, hle⟩, fun s hs => ?_⟩
    have := ih s hs
    omega
  | closed _ hlo hstart hch hstop _ hnext _ ih =>
    have hinside := hch.le
    have hle := hnext.le
    refine List.forall_mem_cons.mpr ⟨⟨hlo, by dsimp only; omega, hle⟩, fun s hs => ?_⟩
    have := ih s hs
    omega
  | unclosed _ hlo hstart hch hstop _ =>
    have hinside := hch.le
    intro s hs
    obtain rfl := List.mem_singleton.mp hs
    dsimp only
    omega

/-- Each expression of the level ends before the ones after it start. -/
theorem spans_pairwise (h : f.Placed lo hi) : f.spans.Pairwise fun s t => s.stop ≤ t.start := by
  induction h using Placed.induction with
  | nil => exact .nil
  | leaf _ _ hnext ih => exact .cons (fun t ht => (hnext.spans_bounds t ht).1) ih
  | closed _ _ _ _ _ _ hnext _ ih => exact .cons (fun t ht => (hnext.spans_bounds t ht).1) ih
  | unclosed => exact List.pairwise_singleton _ _

/-- A list that nothing closes is the last expression of its level and reaches as far as the level
    does. -/
theorem last_of_unclosed (h : f.Placed lo hi) {s : Span} (hs : s ∈ f.spans)
    (hopen : s.closed = false) : f.spans.getLast? = some s ∧ s.stop = hi := by
  induction h using Placed.induction with
  | nil => exact nomatch hs
  | leaf _ _ _ ih =>
    cases List.mem_cons.mp hs with
    | inl hs =>
      rw [hs] at hopen
      cases hopen
    | inr hs =>
      obtain ⟨hlast, hstop⟩ := ih hs
      exact ⟨by rw [spans, List.getLast?_cons, hlast]; rfl, hstop⟩
  | closed hc _ _ _ _ _ _ _ ih =>
    cases List.mem_cons.mp hs with
    | inl hs =>
      rw [hs, hc] at hopen
      cases hopen
    | inr hs =>
      obtain ⟨hlast, hstop⟩ := ih hs
      exact ⟨by rw [spans, List.getLast?_cons, hlast]; rfl, hstop⟩
  | unclosed _ _ _ _ hstop _ =>
    obtain rfl := List.mem_singleton.mp hs
    exact ⟨rfl, hstop⟩

end Placed

end Forest

namespace Segments

open Token (Laid)

/-- The forests lie between `lo` and `hi`, with the delimiters between them. Only the last one may
    have lists that nothing closes. -/
def Placed (hi : Nat) : (lo : Nat) → Segments → Prop
  | lo, .last f => f.Placed lo hi
  | lo, .cut f closer rest =>
    f.Placed lo closer.start ∧ f.AllClosed ∧ closer.stop = closer.start + 1 ∧
      rest.Placed hi closer.stop

variable {lo hi : Nat} {s : Segments}

theorem placed_addLeaf {start stop : Nat} (hlo : lo ≤ start) (hne : start < stop)
    (h : s.Placed hi stop) : (s.addLeaf start stop).Placed hi lo := by
  cases s with
  | last f => exact ⟨hlo, hne, h⟩
  | cut f closer rest => exact ⟨⟨hlo, hne, h.1⟩, h.2⟩

theorem placed_enclose {start opening : Nat} (hlo : lo ≤ start) (hstart : start ≤ opening)
    (h : s.Placed hi (opening + 1)) : (s.enclose hi start opening).Placed hi lo := by
  cases s with
  | last f => exact (Forest.Placed.unclosed_iff rfl).mpr ⟨hlo, hstart, h, rfl, rfl, rfl⟩
  | cut f closer rest =>
    obtain ⟨hf, hclosed, hstop, hrest⟩ := h
    -- The list ends at the delimiter `closer`, so what follows is the forest after that one.
    cases rest with
    | last g =>
      exact (Forest.Placed.closed_iff rfl).mpr ⟨hlo, hstart, hf, hstop, hclosed, hrest⟩
    | cut g closer' rest =>
      obtain ⟨hg, hclosed', hstop', hrest⟩ := hrest
      refine ⟨?_, ⟨rfl, hclosed, hclosed'⟩, hstop', hrest⟩
      exact (Forest.Placed.closed_iff rfl).mpr ⟨hlo, hstart, hf, hstop, hclosed, hg⟩

/-- What is read from tokens lies where the tokens do, from the quote marks before them on. -/
theorem placed_ofTokens {mark : Option Nat} {ts : List Token} {base : Nat} (h : Laid hi lo ts)
    (hbase : base ≤ lo) (hmark : ∀ m ∈ mark, base ≤ m ∧ m ≤ lo) :
    (ofTokens hi mark ts).Placed hi base := by
  induction ts generalizing mark lo base with
  | nil => exact Nat.le_trans hbase h
  | cons t ts ih =>
    obtain ⟨hlo, hne, hone, hrest⟩ := h
    -- The expression that starts here starts at its quote marks, if it has some.
    have hstart : base ≤ mark.getD t.start ∧ mark.getD t.start ≤ t.start := by
      cases mark with
      | none => exact ⟨Nat.le_trans hbase hlo, Nat.le_refl _⟩
      | some m => exact ⟨(hmark m rfl).1, Nat.le_trans (hmark m rfl).2 hlo⟩
    have hnone : (ofTokens hi none ts).Placed hi t.stop :=
      ih hrest (Nat.le_refl _) (fun m hm => nomatch hm)
    unfold ofTokens
    cases hk : t.kind with
    | comment =>
      refine ih hrest (by omega) (fun m hm => ?_)
      have := hmark m hm
      omega
    | quote =>
      refine ih hrest (by omega) (fun _ hm => ?_)
      cases hm
      omega
    | closer =>
      exact ⟨Nat.le_trans hbase hlo, trivial, hone (.inr hk), hnone⟩
    | opener =>
      have hstop := hone (.inl hk)
      exact placed_enclose hstart.1 hstart.2 (hstop ▸ hnone)
    | atom => exact placed_addLeaf hstart.1 (by omega) hnone
    | string => exact placed_addLeaf hstart.1 (by omega) hnone

theorem placed_join (h : s.Placed hi lo) : s.join.Placed lo hi := by
  induction s generalizing lo with
  | last f => exact h
  | cut f closer rest ih =>
    obtain ⟨hf, hclosed, hstop, hrest⟩ := h
    exact hf.append hclosed ((ih hrest).mono (by omega))

end Segments

/-- The forest that is read from the tokens of a text lies in the text. -/
theorem Forest.placed_ofTokens {length : Nat} {ts : List Token} (h : Token.Laid length 0 ts) :
    (Forest.ofTokens length ts).Placed 0 length :=
  Segments.placed_join
    (Segments.placed_ofTokens h (Nat.le_refl _) nofun)

namespace Document

theorem laid_tokens (doc : Document) : Token.Laid doc.length 0 doc.tokens := by
  rw [doc.tokens_eq]
  exact doc.dialect.laid_tokens doc.text

theorem forest_eq_ofTokens (doc : Document) :
    doc.forest = Forest.ofTokens doc.length doc.tokens := doc.forest_eq

theorem placed_forest (doc : Document) : doc.forest.Placed 0 doc.length := by
  rw [doc.forest_eq_ofTokens]
  exact Forest.placed_ofTokens doc.laid_tokens

end Document

end SExprNav
