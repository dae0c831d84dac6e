import Mathlib.Data.List.Forall2
import SExprNav.Proofs.Forest.Nodes

/-!
# What becomes of the tokens

Each opening delimiter becomes a list, each atom and each string becomes a leaf, and a closing
delimiter ends the list of its partner: of the opening delimiter that stands before it with nothing
but whole lists, atoms, strings and marks between the two.

## Key results

- `Forest.openings_ofTokens`: the lists open where the opening delimiters stand
- `Forest.leaves_ofTokens`: the leaves end where the atoms and strings do
- `Forest.partners_of_closed`: a closed list lies between two delimiters that are partners
- `Segments.ofTokens_eq_cut`: the tokens before the first closing delimiter without a partner
-/

namespace SExprNav

namespace Token

/-- Whether the token is a whole expression. -/
def isLeaf (t : Token) : Bool := decide (t.kind = .atom) || decide (t.kind = .string)

/-- Every delimiter among the tokens has its partner among them. -/
inductive Balanced : List Token → Prop where
  | nil : Balanced []
  | skip {t ts} : t.kind ≠ .opener → t.kind ≠ .closer → Balanced ts → Balanced (t :: ts)
  | nest {o ts c us} : o.kind = .opener → Balanced ts → c.kind = .closer → Balanced us →
      Balanced (o :: ts ++ c :: us)

/-- The two tokens are an opening and a closing delimiter, and all delimiters between them have
    their partners there, too. -/
def Partners (tokens : List Token) (o c : Token) : Prop :=
  o.kind = .opener ∧ c.kind = .closer ∧ ∃ ts, Balanced ts ∧ o :: ts ++ [c] <:+: tokens

theorem Partners.cons {tokens : List Token} {o c : Token} (t : Token) (h : Partners tokens o c) :
    Partners (t :: tokens) o c := by
  obtain ⟨ho, hc, ts, hts, hinfix⟩ := h
  exact ⟨ho, hc, ts, hts, List.infix_cons hinfix⟩

theorem Partners.mem_closer {tokens : List Token} {o c : Token} (h : Partners tokens o c) :
    c ∈ tokens := by
  obtain ⟨-, -, ts, -, hinfix⟩ := h
  exact hinfix.subset (by simp)

end Token

namespace Segments

open Token (Balanced)

/-- Where the list lies that `enclose` makes. -/
def extent (length start opening : Nat) : Segments → Extent
  | .last _ => ⟨start, opening, length, length, false⟩
  | .cut _ closer _ => ⟨start, opening, closer.start, closer.stop, true⟩

@[simp] theorem opening_extent (length start opening : Nat) (s : Segments) :
    (s.extent length start opening).opening = opening := by
  cases s <;> rfl

@[simp] theorem join_addLeaf (start stop : Nat) (s : Segments) :
    (s.addLeaf start stop).join = .leaf start stop s.join := by
  cases s <;> rfl

@[simp] theorem join_addList (e : Extent) (children : Forest) (s : Segments) :
    (s.addList e children).join = .list e children s.join := by
  cases s <;> rfl

/-- A list that is put around what was read comes before all that was read. -/
theorem extents_join_enclose (length start opening : Nat) (s : Segments) :
    (s.enclose length start opening).join.extents =
      s.extent length start opening :: s.join.extents := by
  cases s with
  | last f => simp [enclose, join, Forest.extents, extent]
  | cut f closer rest => simp [enclose, join, Forest.extents, extent]

theorem leaves_join_enclose (length start opening : Nat) (s : Segments) :
    (s.enclose length start opening).join.leaves = s.join.leaves := by
  cases s with
  | last f => simp [enclose, join, Forest.leaves]
  | cut f closer rest => simp [enclose, join, Forest.leaves]

/-- When a closing delimiter is left without a partner, all delimiters before it have theirs, and
    what follows it was read on its own. -/
theorem ofTokens_eq_cut {length : Nat} {mark : Option Nat} {ts : List Token} {f : Forest}
    {c : Token} {rest : Segments} (h : ofTokens length mark ts = .cut f c rest) :
    ∃ us vs, ts = us ++ c :: vs ∧ Balanced us ∧ c.kind = .closer ∧
      ofTokens length none vs = rest := by
  -- An opening delimiter is followed by its partner and then by the delimiter without one, so
  -- the induction has to reach beyond the first token.
  induction hn : ts.length using Nat.strongRecOn generalizing mark ts f c rest with
  | ind n ih =>
    cases ts with
    | nil => cases h
    | cons t ts =>
      have hlt : ts.length < n := by simp only [← hn, List.length_cons]; omega
      -- A token that is no delimiter goes in front of what is balanced.
      have hskip : ∀ {m f}, t.kind ≠ .opener → t.kind ≠ .closer →
          ofTokens length m ts = .cut f c rest → ∃ us vs, t :: ts = us ++ c :: vs ∧ Balanced us ∧
            c.kind = .closer ∧ ofTokens length none vs = rest := by
        intro m f ho hc hts
        obtain ⟨us, vs, rfl, hus, hck, hvs⟩ := ih _ hlt hts rfl
        exact ⟨t :: us, vs, rfl, .skip ho hc hus, hck, hvs⟩
      have hleaf : ∀ {start stop}, t.kind ≠ .opener → t.kind ≠ .closer →
          (ofTokens length none ts).addLeaf start stop = .cut f c rest →
          ∃ us vs, t :: ts = us ++ c :: vs ∧ Balanced us ∧
            c.kind = .closer ∧ ofTokens length none vs = rest := by
        intro start stop ho hc hts
        cases hs : ofTokens length none ts with
        | last g => rw [hs] at hts; cases hts
        | cut g c' rest' =>
          rw [hs] at hts
          cases hts
          exact hskip ho hc hs
      unfold ofTokens at h
      cases hk : t.kind with
      | comment => rw [hk] at h; exact hskip (by simp [hk]) (by simp [hk]) h
      | quote => rw [hk] at h; exact hskip (by simp [hk]) (by simp [hk]) h
      | atom => rw [hk] at h; exact hleaf (by simp [hk]) (by simp [hk]) h
      | string => rw [hk] at h; exact hleaf (by simp [hk]) (by simp [hk]) h
      | closer =>
        rw [hk] at h
        cases h
        exact ⟨[], ts, rfl, .nil, hk, rfl⟩
      | opener =>
        rw [hk] at h
        dsimp only at h
        cases hs : ofTokens length none ts with
        | last g => rw [hs] at h; cases h
        | cut g c' rest' =>
          rw [hs] at h
          -- The first delimiter without a partner is that of `t`; the next one has none.
          obtain ⟨us, vs, rfl, hus, hck', hvs⟩ := ih _ hlt hs rfl
          cases rest' with
          | last g' => cases h
          | cut g' c'' rest'' =>
            cases h
            have hlt' : vs.length < n := by simp at hlt; omega
            obtain ⟨us', vs', rfl, hus', hck, hvs'⟩ := ih _ hlt' hvs rfl
            refine ⟨t :: us ++ c' :: us', vs', by simp, .nest hk hus hck' hus', hck, hvs'⟩

end Segments

namespace Forest

open Token (Laid Partners)

/-- The lists open where the opening delimiters stand, in the same order. -/
theorem openings_ofTokens (length : Nat) (ts : List Token) :
    (ofTokens length ts).extents.map (·.opening) =
      (ts.filter fun t => t.kind = .opener).map (·.start) := by
  unfold ofTokens
  generalize (none : Option Nat) = mark
  induction ts generalizing mark with
  | nil => rfl
  | cons t ts ih =>
    unfold Segments.ofTokens
    cases hk : t.kind with
    | comment | quote => simp [hk, ih]
    | closer => simp [hk, Segments.join, ih]
    | opener => simp [hk, Segments.extents_join_enclose, ih]
    | atom | string => simp [hk, extents, ih]

/-- A leaf that an atom or a string became, maybe with quote marks before it. -/
def LeafOf (s : Span) (t : Token) : Prop := s.start ≤ t.start ∧ s.stop = t.stop

/-- The leaves end where the atoms and strings do, in the same order. -/
theorem leaves_ofTokens {length lo : Nat} {ts : List Token} (h : Laid length lo ts) :
    List.Forall₂ LeafOf (ofTokens length ts).leaves (ts.filter (·.isLeaf)) := by
  unfold ofTokens
  -- Quote marks before an expression stand before its own token.
  have hmark : ∀ m ∈ (none : Option Nat), m ≤ lo := nofun
  revert hmark
  generalize (none : Option Nat) = mark
  intro hmark
  induction ts generalizing mark lo with
  | nil => exact .nil
  | cons t ts ih =>
    obtain ⟨hlo, hne, -, hrest⟩ := h
    have hstart : mark.getD t.start ≤ t.start := by
      cases mark with
      | none => exact Nat.le_refl _
      | some m => exact Nat.le_trans (hmark m rfl) hlo
    have hnone := ih hrest none nofun
    have hlater : ∀ {m}, m ≤ t.start → ∀ m' ∈ some m, m' ≤ t.stop := by
      rintro m hm _ ⟨⟩
      omega
    unfold Segments.ofTokens
    cases hk : t.kind with
    | comment =>
      have hm : ∀ m ∈ mark, m ≤ t.stop := by
        intro m hm
        have := hmark m hm
        omega
      simpa [hk, Token.isLeaf] using ih hrest mark hm
    | quote => simpa [hk, Token.isLeaf] using ih hrest _ (hlater hstart)
    | closer => simpa [hk, Token.isLeaf, Segments.join] using hnone
    | opener => simpa [hk, Token.isLeaf, Segments.leaves_join_enclose] using hnone
    | atom => simpa [hk, Token.isLeaf, leaves] using ⟨⟨hstart, rfl⟩, hnone⟩
    | string => simpa [hk, Token.isLeaf, leaves] using ⟨⟨hstart, rfl⟩, hnone⟩

/-- A closed list lies between two delimiters that are partners. -/
theorem partners_of_closed (length : Nat) (ts : List Token) :
    ∀ e ∈ (ofTokens length ts).extents, e.closed = true →
      ∃ o c, Partners ts o c ∧ o.start = e.opening ∧ c.start = e.closing ∧ c.stop = e.stop := by
  unfold ofTokens
  generalize (none : Option Nat) = mark
  induction ts generalizing mark with
  | nil => exact nofun
  | cons t ts ih =>
    have hlater : ∀ {m}, ∀ e ∈ (Segments.ofTokens length m ts).join.extents, e.closed = true →
        ∃ o c, Partners (t :: ts) o c ∧ o.start = e.opening ∧ c.start = e.closing ∧
          c.stop = e.stop := by
      intro m e he hclosed
      obtain ⟨o, c, hoc, h⟩ := ih m e he hclosed
      exact ⟨o, c, hoc.cons t, h⟩
    unfold Segments.ofTokens
    cases hk : t.kind with
    | comment | quote | closer => exact hlater
    | atom | string => simpa only [Segments.join_addLeaf, extents] using hlater
    | opener =>
      simp only [Segments.extents_join_enclose, List.forall_mem_cons]
      refine ⟨?_, hlater⟩
      cases hs : Segments.ofTokens length none ts with
      | last f =>
        intro hclosed
        cases hclosed
      | cut f c rest =>
        intro _
        obtain ⟨us, vs, rfl, hus, hck, -⟩ := Segments.ofTokens_eq_cut hs
        exact ⟨t, c, ⟨hk, hck, us, hus, [], vs, by simp⟩, rfl, rfl, rfl⟩

end Forest

end SExprNav
