import SExprNav.Proofs.Token.Layout

/-!
# What the tokens of a text cover

Cutting a text into tokens loses nothing but blanks: a character that no token covers is a blank.
The other way round, a token may cover blanks, but it does not start with one.

## Key results

- `Dialect.isBlank_of_uncovered`: what no token covers is blank
- `Dialect.start_not_blank`: no token starts with a blank
-/

namespace SExprNav

open Text (isBlank)

/-- The token covers a position of the text: the character after the position belongs to it. -/
def Token.Covers (t : Token) (p : Nat) : Prop := t.start ≤ p ∧ p < t.stop

instance (t : Token) (p : Nat) : Decidable (t.Covers p) :=
  inferInstanceAs (Decidable (t.start ≤ p ∧ p < t.stop))

namespace Dialect

variable {d : Dialect}

/-- The tokens of a text that does not start with a blank: the first one, and those of what comes
    after it. -/
theorem tokensFrom_of_not_blank {c : Char} (h : isBlank c = false) (i : Nat) (cs : List Char) :
    d.tokensFrom i 0 (c :: cs) =
      ⟨(d.lexeme c cs).1, i, i + (d.lexeme c cs).2⟩ ::
        d.tokensFrom (i + 1) ((d.lexeme c cs).2 - 1) cs := by
  simp only [tokensFrom, h, Bool.false_eq_true, if_false]

theorem tokensFrom_of_blank {c : Char} (h : isBlank c = true) (i : Nat) (cs : List Char) :
    d.tokensFrom i 0 (c :: cs) = d.tokensFrom (i + 1) 0 cs := by
  simp only [tokensFrom, h, if_true]

theorem isBlank_of_uncovered_from {i skip p : Nat} {cs : List Char} {c : Char} (hskip : skip ≤ p)
    (hc : c ∈ cs[p]?) (h : ∀ t ∈ d.tokensFrom i skip cs, ¬ t.Covers (i + p)) :
    isBlank c = true := by
  induction cs generalizing i skip p with
  | nil => exact nomatch hc
  | cons a cs ih =>
    cases skip with
    | succ skip =>
      obtain ⟨q, rfl⟩ : ∃ q, p = q + 1 := ⟨p - 1, by omega⟩
      rw [tokensFrom] at h
      exact ih (Nat.le_of_succ_le_succ hskip) hc (by rwa [Nat.add_right_comm])
    | zero =>
      cases hblank : isBlank a with
      | true =>
        cases p with
        | zero =>
          obtain rfl : a = c := Option.some.inj hc
          exact hblank
        | succ q =>
          rw [tokensFrom_of_blank hblank] at h
          exact ih (Nat.zero_le q) hc (by rwa [Nat.add_right_comm])
      | false =>
        -- The first token does not cover the position, so it ends before it.
        rw [tokensFrom_of_not_blank hblank] at h
        obtain ⟨hfirst, hrest⟩ := List.forall_mem_cons.mp h
        have hpos := d.lexeme_pos hblank cs
        have hbefore : (d.lexeme a cs).2 ≤ p := by
          simp only [Token.Covers] at hfirst
          omega
        obtain ⟨q, rfl⟩ : ∃ q, p = q + 1 := ⟨p - 1, by omega⟩
        have hskip' : (d.lexeme a cs).2 - 1 ≤ q := by omega
        exact ih hskip' hc (by rwa [Nat.add_right_comm])

/-- A character that no token covers is a blank. -/
theorem isBlank_of_uncovered {text : List Char} {p : Nat} {c : Char} (hc : c ∈ text[p]?)
    (h : ∀ t ∈ d.tokens text, ¬ t.Covers p) : isBlank c = true :=
  isBlank_of_uncovered_from (Nat.zero_le p) hc (by rwa [Nat.zero_add])

theorem start_not_blank_from {i skip : Nat} {cs : List Char} :
    ∀ t ∈ d.tokensFrom i skip cs, ∃ p, t.start = i + p ∧ ∃ c ∈ cs[p]?, isBlank c = false := by
  induction cs generalizing i skip with
  | nil => simp [tokensFrom]
  | cons a cs ih =>
    -- What holds of a token of the rest, with positions counted from there, holds of it here.
    have hrest : ∀ {n : Nat}, ∀ t ∈ d.tokensFrom (i + 1) n cs,
        ∃ p, t.start = i + p ∧ ∃ c ∈ (a :: cs)[p]?, isBlank c = false := by
      intro n t ht
      obtain ⟨p, hp, hc⟩ := ih t ht
      exact ⟨p + 1, by omega, hc⟩
    cases skip with
    | succ skip =>
      rw [tokensFrom]
      exact hrest
    | zero =>
      cases hblank : isBlank a with
      | true =>
        rw [tokensFrom_of_blank hblank]
        exact hrest
      | false =>
        rw [tokensFrom_of_not_blank hblank]
        exact List.forall_mem_cons.mpr ⟨⟨0, rfl, a, rfl, hblank⟩, hrest⟩

/-- No token starts with a blank. -/
theorem start_not_blank {text : List Char} :
    ∀ t ∈ d.tokens text, ∃ c ∈ text[t.start]?, isBlank c = false := by
  intro t ht
  obtain ⟨p, hp, hc⟩ := start_not_blank_from t ht
  rw [Nat.zero_add] at hp
  rwa [hp]

end Dialect

end SExprNav
