import SExprNav.Proofs.Forest.Concatenation
import SExprNav.Proofs.Forest.Stack

/-!
# Idle closing delimiters

A closing delimiter that is met when no list is open closes nothing. Unless it stands behind a quote
mark, which it keeps from the next expression, it is idle: the forest is the same without it.

Reading from the right, it is not yet known which closing delimiters close nothing. But with `k` lists
open, the ones after the first `k` without a partner are those that close nothing, and it does not
matter which of them there are (`Segments.joinAfter`).

## Key results

- `Segments.joinAfter_enclose`, `Segments.joinAfter_addLeaf`: what reading does to what is joined
- `Segments.joinAfter_ofTokens_filter`: idle closing delimiters may be left out
- `Forest.ofTokens_filter`: the same for forests
- `Token.Laid.filter_start_lt`: the tokens before a token are those that start before it
-/

namespace SExprNav

namespace Token

/-- A closing delimiter that stands behind some tokens is idle: no opening delimiter waits for it, and
    the last of the tokens that is no comment is no quote mark. -/
def Idle (before : List Token) (t : Token) : Prop :=
  t.kind = .closer ∧ waiting before = [] ∧
    ∀ u ∈ (before.filter (·.kind ≠ .comment)).getLast?, u.kind ≠ .quote

instance (before : List Token) (t : Token) : Decidable (Idle before t) :=
  inferInstanceAs (Decidable (_ ∧ _ ∧ _))

theorem waiting_concat (ts : List Token) (t : Token) :
    waiting (ts ++ [t]) = stackAfter (waiting ts) t := by
  rw [waiting, List.foldl_append]
  rfl

/-- The tokens before a token are those that start before it. -/
theorem Laid.filter_start_lt {hi lo : Nat} {before after : List Token} {t : Token}
    (h : Laid hi lo (before ++ t :: after)) :
    (before ++ t :: after).filter (·.start < t.start) = before := by
  have hbounds := h.bounds
  have hpairwise := List.pairwise_append.mp h.pairwise
  rw [List.filter_append, List.filter_eq_self.mpr, List.filter_eq_nil_iff.mpr, List.append_nil]
  · intro u hu
    rw [decide_eq_true_eq, Nat.not_lt]
    obtain rfl | hu := List.mem_cons.mp hu
    · exact Nat.le_refl _
    · have hle := (List.pairwise_cons.mp hpairwise.2.1).1 u hu
      have := hbounds t (by simp)
      omega
  · intro u hu
    have hle := hpairwise.2.2 u hu t List.mem_cons_self
    have := hbounds u (List.mem_append_left _ hu)
    exact decide_eq_true (by omega)

end Token

namespace Segments

/-- The first `k` closing delimiters without a partner are kept, and what is behind them is joined. -/
def joinAfter : Nat → Segments → Segments
  | 0, s => .last s.join
  | _ + 1, .last f => .last f
  | k + 1, .cut f closer rest => .cut f closer (rest.joinAfter k)

variable {k : Nat} {s : Segments}

theorem joinAfter_last (k : Nat) (f : Forest) : joinAfter k (.last f) = .last f := by
  cases k <;> rfl

theorem joinAfter_addLeaf (start stop : Nat) :
    (s.addLeaf start stop).joinAfter k = (s.joinAfter k).addLeaf start stop := by
  cases k <;> cases s <;> rfl

theorem joinAfter_addList (e : Extent) (children : Forest) :
    (s.addList e children).joinAfter k = (s.joinAfter k).addList e children := by
  cases k <;> cases s <;> rfl

/-- A list takes the first closing delimiter without a partner for its own. -/
theorem joinAfter_enclose (length start opening : Nat) :
    (s.enclose length start opening).joinAfter k =
      (s.joinAfter (k + 1)).enclose length start opening := by
  cases s with
  | last f => exact joinAfter_last k _
  | cut f closer rest => exact joinAfter_addList _ _

/-- Idle closing delimiters may be left out: with as many lists open as there are, what is joined
    behind those that close them stays the same. -/
theorem joinAfter_ofTokens_filter {length : Nat} {S : Token → Bool} {before ts : List Token}
    (h : ∀ pre t post, ts = pre ++ t :: post → S t = true → Token.Idle (before ++ pre) t) :
    let mark := before.foldl Token.markAfter none
    (ofTokens length mark (ts.filter fun t => !S t)).joinAfter (Token.waiting before).length =
      (ofTokens length mark ts).joinAfter (Token.waiting before).length := by
  induction ts generalizing before with
  | nil => rfl
  | cons t ts ih =>
    intro mark
    have hidle : ∀ pre u post, ts = pre ++ u :: post → S u = true →
        Token.Idle (before ++ [t] ++ pre) u := by
      intro pre u post hts hu
      rw [List.append_assoc]
      exact h (t :: pre) u post (by rw [hts]; rfl) hu
    have hrest : (ofTokens length (Token.markAfter mark t) (ts.filter fun t => !S t)).joinAfter
          (Token.stackAfter (Token.waiting before) t).length =
        (ofTokens length (Token.markAfter mark t) ts).joinAfter
          (Token.stackAfter (Token.waiting before) t).length := by
      have := ih hidle
      rwa [Token.waiting_concat, List.foldl_append] at this
    rw [List.filter_cons]
    by_cases hS : S t = true
    · -- The delimiter closes nothing, and no quote marks are left before it.
      obtain ⟨hkind, hwaiting, hquote⟩ := h [] t ts rfl hS
      rw [List.append_nil] at hwaiting hquote
      have hmark : mark = none := Token.foldl_markAfter_eq_none hquote
      rw [if_neg (by simp [hS]), hmark, hwaiting]
      simp only [Token.markAfter, Token.stackAfter, hwaiting, hkind] at hrest
      have hread : ofTokens length none (t :: ts) = .cut .nil t (ofTokens length none ts) := by
        rw [ofTokens, hkind]
      rw [hread]
      exact hrest
    · -- The token is kept. An opening delimiter takes one of the closing ones that wait behind.
      rw [if_pos (by simp [hS])]
      unfold ofTokens
      cases hkind : t.kind with
      | comment | quote =>
        simp only [Token.markAfter, Token.stackAfter, hkind] at hrest
        exact hrest
      | atom | string =>
        simp only [Token.markAfter, Token.stackAfter, hkind] at hrest
        simp only [joinAfter_addLeaf, hrest]
      | opener =>
        simp only [Token.markAfter, Token.stackAfter, hkind, List.length_append,
          List.length_singleton] at hrest
        simp only [joinAfter_enclose, hrest]
      | closer =>
        simp only [Token.markAfter, Token.stackAfter, hkind, List.length_dropLast] at hrest
        cases hk : (Token.waiting before).length with
        | zero =>
          rw [hk] at hrest
          exact hrest
        | succ k =>
          rw [hk, Nat.add_sub_cancel] at hrest
          simp only [joinAfter, hrest]

end Segments

/-- The forest is the same without some closing delimiters that are idle. -/
theorem Forest.ofTokens_filter {length : Nat} {S : Token → Bool} {ts : List Token}
    (h : ∀ before t after, ts = before ++ t :: after → S t = true → Token.Idle before t) :
    ofTokens length (ts.filter fun t => !S t) = ofTokens length ts := by
  have hjoin := @Segments.joinAfter_ofTokens_filter length S [] ts h
  exact Segments.last.inj hjoin

namespace Document

variable {doc : Document}

/-- The closing delimiters that are idle. -/
def idle (doc : Document) : List Token :=
  doc.tokens.filter fun t => decide (Token.Idle (doc.tokens.filter (·.start < t.start)) t)

theorem mem_idle_iff {before after : List Token} {t : Token}
    (h : doc.tokens = before ++ t :: after) : t ∈ doc.idle ↔ Token.Idle before t := by
  have hbefore : doc.tokens.filter (·.start < t.start) = before := by
    have hlaid := doc.laid_tokens
    rw [h] at hlaid ⊢
    exact hlaid.filter_start_lt
  rw [idle, List.mem_filter, hbefore, decide_eq_true_iff, h]
  simp

/-- The forest is the same without the closing delimiters that are idle. -/
theorem ofTokens_filter_idle (doc : Document) :
    Forest.ofTokens doc.length (doc.tokens.filter fun t => decide (t ∉ doc.idle)) = doc.forest := by
  have hS : (fun t => decide (t ∉ doc.idle)) = fun t => !decide (t ∈ doc.idle) := by
    funext t
    rw [decide_not]
  rw [doc.forest_eq_ofTokens, hS]
  apply Forest.ofTokens_filter
  intro before t after h ht
  exact (mem_idle_iff h).mp (of_decide_eq_true ht)

end Document

end SExprNav
