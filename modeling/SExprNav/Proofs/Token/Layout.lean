import SExprNav.Token.Lexer

/-!
# How tokens lie in a text

The tokens of a text lie one after another and inside the text, none of them is empty, and each
delimiter takes one character. `Token.Laid` says this of some tokens between two positions.

## Key results

- `Dialect.laid_tokens`: the tokens of a text are laid out in it
- `Token.Laid.pairwise`, `Token.Laid.bounds`: what this says of any two tokens, and of each one
- `Token.Laid.eq_of_start_eq`: a token is known by its start
-/

namespace SExprNav

namespace Token

/-- The tokens lie one after another between `lo` and `hi`. None is empty, and a delimiter takes
    one character. -/
def Laid (hi : Nat) : (lo : Nat) → List Token → Prop
  | lo, [] => lo ≤ hi
  | lo, t :: ts =>
    lo ≤ t.start ∧ t.start < t.stop ∧
      (t.kind = .opener ∨ t.kind = .closer → t.stop = t.start + 1) ∧ Laid hi t.stop ts

namespace Laid

/-- Tokens that start later start late enough. -/
theorem mono {hi lo lo' : Nat} {ts : List Token} (h : Laid hi lo ts) (hlo : lo' ≤ lo) :
    Laid hi lo' ts := by
  cases ts with
  | nil => exact Nat.le_trans hlo h
  | cons t ts => exact ⟨Nat.le_trans hlo h.1, h.2⟩

theorem le {hi lo : Nat} {ts : List Token} (h : Laid hi lo ts) : lo ≤ hi := by
  induction ts generalizing lo with
  | nil => exact h
  | cons t ts ih =>
    obtain ⟨hstart, hne, -, hrest⟩ := h
    have := ih hrest
    omega

/-- Each of the tokens lies between the two positions and is not empty. -/
theorem bounds {hi lo : Nat} {ts : List Token} (h : Laid hi lo ts) :
    ∀ t ∈ ts, lo ≤ t.start ∧ t.start < t.stop ∧ t.stop ≤ hi := by
  induction ts generalizing lo with
  | nil => simp
  | cons t ts ih =>
    obtain ⟨hstart, hne, -, hrest⟩ := h
    intro u hu
    rcases List.mem_cons.mp hu with rfl | hu
    · exact ⟨hstart, hne, hrest.le⟩
    · have := ih hrest u hu
      omega

/-- No two tokens start at the same position. -/
theorem eq_of_start_eq {hi lo : Nat} {ts : List Token} (h : Laid hi lo ts) {t u : Token}
    (ht : t ∈ ts) (hu : u ∈ ts) (hstart : t.start = u.start) : t = u := by
  induction ts generalizing lo with
  | nil => exact nomatch ht
  | cons a ts ih =>
    obtain ⟨-, hne, -, hrest⟩ := h
    cases List.mem_cons.mp ht with
    | inl ht =>
      cases List.mem_cons.mp hu with
      | inl hu => rw [ht, hu]
      | inr hu =>
        have := hrest.bounds u hu
        subst ht
        omega
    | inr ht =>
      cases List.mem_cons.mp hu with
      | inl hu =>
        have := hrest.bounds t ht
        subst hu
        omega
      | inr hu => exact ih hrest ht hu

/-- Each token ends before the ones after it start. -/
theorem pairwise {hi lo : Nat} {ts : List Token} (h : Laid hi lo ts) :
    ts.Pairwise fun t u => t.stop ≤ u.start := by
  induction ts generalizing lo with
  | nil => exact .nil
  | cons t ts ih =>
    obtain ⟨-, -, -, hrest⟩ := h
    exact .cons (fun u hu => (hrest.bounds u hu).1) (ih hrest)

end Laid

end Token

namespace Dialect

open Token (Laid)

/-- A delimiter takes one character. -/
theorem lexeme_delimiter (d : Dialect) (c : Char) (cs : List Char)
    (h : (d.lexeme c cs).1 = .opener ∨ (d.lexeme c cs).1 = .closer) : (d.lexeme c cs).2 = 1 := by
  revert h
  unfold lexeme
  split
  · simp
  split
  · simp
  split
  · simp
  split
  · simp
  split <;> simp

theorem laid_tokensFrom (d : Dialect) (i skip : Nat) (cs : List Char) (h : skip ≤ cs.length) :
    Laid (i + cs.length) (i + skip) (d.tokensFrom i skip cs) := by
  induction cs generalizing i skip with
  | nil =>
    simp only [tokensFrom, Laid]
    exact Nat.add_le_add_left h i
  | cons c cs ih =>
    have hlen : i + (c :: cs).length = i + 1 + cs.length := by simp; omega
    rw [hlen]
    cases skip with
    | succ skip =>
      have hskip : skip ≤ cs.length := Nat.le_of_succ_le_succ h
      rw [tokensFrom, show i + (skip + 1) = i + 1 + skip by omega]
      exact ih (i + 1) skip hskip
    | zero =>
      cases hb : Text.isBlank c with
      | true =>
        simp only [tokensFrom, hb, if_true]
        exact (ih (i + 1) 0 (Nat.zero_le _)).mono (by omega)
      | false =>
        have hpos := d.lexeme_pos hb cs
        have hle := d.lexeme_le c cs
        simp only [tokensFrom, hb, Bool.false_eq_true, if_false]
        refine ⟨Nat.le_refl _, by dsimp only; omega, ?_, ?_⟩
        · intro hkind
          have := d.lexeme_delimiter c cs hkind
          dsimp only; omega
        · have := ih (i + 1) ((d.lexeme c cs).2 - 1) (by omega)
          rwa [show i + 1 + ((d.lexeme c cs).2 - 1) = i + (d.lexeme c cs).2 by omega] at this

/-- The tokens of a text are laid out in it. -/
theorem laid_tokens (d : Dialect) (text : List Char) : Laid text.length 0 (d.tokens text) := by
  have := d.laid_tokensFrom 0 0 text (Nat.zero_le _)
  rwa [Nat.zero_add] at this

end Dialect

end SExprNav
