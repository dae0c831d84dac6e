import SExprNav.Proofs.Process.Loop
import SExprNav.Proofs.Token.Coverage
import SExprNav.Proofs.Token.Scan

/-!
# Cutting a text comes to an end

The tokens of a text are defined by recursion on the text, which ends in any case. Here a text is cut
by loops that move an index to the right, and of such a loop nothing comes if it stands still. One
loop looks for the end of a string, one for the end of an atom, and one goes from token to token. A
backslash moves the index by two characters, so that it may end up one beyond the text; the end of a
token is then put back to the end of the text.

## Key results

- `Dialect.stringEnd_eq`, `Dialect.atomEnd_eq`: the loops inside a token end where the token does
- `Dialect.tokenAt_eq`: the token at an index, with the loop inside it
- `Dialect.run_tokenRound`: the loop from token to token ends with all tokens from there on
- `Dialect.tokenize_covers`: cutting a text ends, with tokens that cover all but blanks
-/

namespace SExprNav

open Text (isBlank)

namespace Dialect

/-- How far the index moves inside a string, before the rest of the text. At a quote and at the end
    of the text it stays. -/
def stringStride : List Char → Option Nat
  | [] => none
  | '"' :: _ => none
  | '\\' :: _ => some 2
  | _ :: _ => some 1

/-- How far the index moves inside an atom, before the rest of the text. At a blank, a delimiter, a
    string or a comment and at the end of the text it stays. -/
def atomStride (d : Dialect) : List Char → Option Nat
  | [] => none
  | '\\' :: _ => some 2
  | c :: cs =>
    if isBlank c || d.isDelimiter c || c == '"' || d.marked (c :: cs) then none else some 1

/-- Moves the index once, unless it stays. -/
def moveOn (stride : List Char → Option Nat) (text : List Char) (i : Nat) : Part (Nat ⊕ Nat) :=
  Part.some <|
    match stride (text.drop i) with
    | none => .inl i
    | some n => .inr (i + n)

/-- The end of a string, from an index after the quote that opens it. -/
def stringEnd (text : List Char) (i : Nat) : Part Nat :=
  (Loop.run (moveOn stringStride text) i).map fun e => min (e + 1) text.length

/-- The end of an atom, from an index inside it. -/
def atomEnd (d : Dialect) (text : List Char) (i : Nat) : Part Nat :=
  (Loop.run (moveOn d.atomStride text) i).map fun e => min e text.length

/-- The token that starts at an index with a character that is no blank. -/
def tokenAt (d : Dialect) (text : List Char) (i : Nat) (c : Char) : Part Token :=
  if d.marked (text.drop i) then Part.some ⟨.comment, i, i + commentLength (text.drop i)⟩
  else if c == '"' then (stringEnd text (i + 1)).map fun e => ⟨.string, i, e⟩
  else if d.opening.contains c then Part.some ⟨.opener, i, i + 1⟩
  else if d.closing.contains c then Part.some ⟨.closer, i, i + 1⟩
  else
    match d.quoteLength? (text.drop i) with
    | some n => Part.some ⟨.quote, i, i + n⟩
    | none => (d.atomEnd text i).map fun e => ⟨.atom, i, e⟩

/-- Moves past a blank, or to the end of the token at the index, which is added to those found
    before. At the end of the text all are found. -/
def tokenRound (d : Dialect) (text : List Char) :
    Nat × List Token → Part (List Token ⊕ Nat × List Token)
  | (i, found) =>
    match text[i]? with
    | none => Part.some (.inl found)
    | some c =>
      if isBlank c then Part.some (.inr (i + 1, found))
      else (d.tokenAt text i c).map fun t => .inr (t.stop, found ++ [t])

/-- Cuts a text into tokens from its start on. -/
def tokenize (d : Dialect) (text : List Char) : Part (List Token) :=
  Loop.run (d.tokenRound text) (0, [])

variable {d : Dialect} {text cs : List Char} {c : Char} {i : Nat}

/-- The rest of a text after a character, and the length of the text. -/
theorem drop_succ_of_drop (h : text.drop i = c :: cs) :
    text.drop (i + 1) = cs ∧ text.length = i + 1 + cs.length := by
  have hdrop : text.drop (i + 1) = cs := by rw [← List.tail_drop, h, List.tail_cons]
  have hlength := congrArg List.length h
  rw [List.length_drop, List.length_cons] at hlength
  exact ⟨hdrop, by omega⟩

/-! ## Inside a token -/

section Inside

variable {stride : List Char → Option Nat}

theorem run_moveOn_of_none (h : stride (text.drop i) = none) :
    Loop.run (moveOn stride text) i = Part.some i :=
  Loop.run_of_done (by rw [moveOn, h])

theorem run_moveOn_of_some {n : Nat} (h : stride (text.drop i) = some n) :
    Loop.run (moveOn stride text) i = Loop.run (moveOn stride text) (i + n) :=
  Loop.run_of_again (by rw [moveOn, h])

/-- A backslash at the end of the text moves the index beyond it. -/
theorem run_moveOn_of_overshoot (stride : List Char → Option Nat)
    (hescape : stride ['\\'] = some 2) (hnil : stride [] = none) (h : text.drop i = ['\\']) :
    Loop.run (moveOn stride text) i = Part.some (i + 2) ∧ text.length = i + 1 := by
  obtain ⟨hdrop, hlength⟩ := drop_succ_of_drop h
  have hover : text.drop (i + 2) = [] := by rw [← List.tail_drop, hdrop, List.tail_nil]
  rw [run_moveOn_of_some (h ▸ hescape), run_moveOn_of_none (hover ▸ hnil)]
  exact ⟨rfl, hlength⟩

theorem stringStride_cons (hquote : c ≠ '"') (hescape : c ≠ '\\') :
    stringStride (c :: cs) = some 1 := by
  unfold stringStride
  split <;> simp_all

theorem atomStride_cons (hescape : c ≠ '\\') :
    d.atomStride (c :: cs) =
      if isBlank c || d.isDelimiter c || c == '"' || d.marked (c :: cs) then none else some 1 := by
  unfold atomStride
  split <;> simp_all

/-- The loop inside a string ends where the string does. -/
theorem stringEnd_eq (h : text.drop i = cs) (hi : i ≤ text.length) :
    stringEnd text i = Part.some (i + stringLength cs) := by
  unfold stringEnd
  fun_induction stringLength cs generalizing i with
  | case1 =>
    have hlength := List.drop_eq_nil_iff.mp h
    rw [run_moveOn_of_none (h ▸ rfl), Part.map_some]
    congr 1
    omega
  | case2 cs =>
    obtain ⟨-, hlength⟩ := drop_succ_of_drop h
    rw [run_moveOn_of_none (h ▸ rfl), Part.map_some]
    congr 1
    omega
  | case3 =>
    obtain ⟨hrun, hlength⟩ := run_moveOn_of_overshoot stringStride rfl rfl h
    rw [hrun, Part.map_some]
    congr 1
    omega
  | case4 c cs ih =>
    have hstride : stringStride (text.drop i) = some 2 := by rw [h]; rfl
    obtain ⟨hdrop, -⟩ := drop_succ_of_drop h
    obtain ⟨hdrop, hlength⟩ := drop_succ_of_drop hdrop
    rw [run_moveOn_of_some hstride, ih (i := i + 2) hdrop (by omega), Nat.add_assoc]
  | case5 c cs hquote hend hescape ih =>
    have hstride : stringStride (text.drop i) = some 1 := by
      rw [h]
      exact stringStride_cons hquote (Scan.ne_backslash hend hescape)
    obtain ⟨hdrop, hlength⟩ := drop_succ_of_drop h
    rw [run_moveOn_of_some hstride, ih hdrop (by omega), Nat.add_assoc]

/-- The loop inside an atom ends where the atom does. -/
theorem atomEnd_eq (h : text.drop i = cs) (hi : i ≤ text.length) :
    d.atomEnd text i = Part.some (i + d.atomLength cs) := by
  unfold atomEnd
  fun_induction atomLength d cs generalizing i with
  | case1 =>
    rw [run_moveOn_of_none (h ▸ rfl), Part.map_some, Nat.min_eq_left hi]
    rfl
  | case2 =>
    obtain ⟨hrun, hlength⟩ := run_moveOn_of_overshoot d.atomStride rfl rfl h
    rw [hrun, Part.map_some]
    congr 1
    omega
  | case3 c cs ih =>
    have hstride : d.atomStride (text.drop i) = some 2 := by rw [h]; rfl
    obtain ⟨hdrop, -⟩ := drop_succ_of_drop h
    obtain ⟨hdrop, hlength⟩ := drop_succ_of_drop hdrop
    rw [run_moveOn_of_some hstride, ih (i := i + 2) hdrop (by omega), Nat.add_assoc]
  | case4 c cs hend hescape hstop =>
    have hstride : d.atomStride (text.drop i) = none := by
      rw [h, atomStride_cons (Scan.ne_backslash hend hescape), if_pos hstop]
    rw [run_moveOn_of_none hstride, Part.map_some, Nat.min_eq_left hi]
    rfl
  | case5 c cs hend hescape hgo ih =>
    have hstride : d.atomStride (text.drop i) = some 1 := by
      rw [h, atomStride_cons (Scan.ne_backslash hend hescape), if_neg hgo]
    obtain ⟨hdrop, hlength⟩ := drop_succ_of_drop h
    rw [run_moveOn_of_some hstride, ih hdrop (by omega), Nat.add_assoc]

end Inside

/-! ## From token to token -/

/-- The token at an index is the one that the rest of the text starts with. -/
theorem tokenAt_eq (h : text.drop i = c :: cs) :
    d.tokenAt text i c = Part.some ⟨(d.lexeme c cs).1, i, i + (d.lexeme c cs).2⟩ := by
  obtain ⟨hdrop, hlength⟩ := drop_succ_of_drop h
  have hstring : stringEnd text (i + 1) = Part.some (i + (1 + stringLength cs)) := by
    rw [stringEnd_eq hdrop (by omega), Nat.add_assoc]
  have hatom : d.atomEnd text i = Part.some (i + d.atomLength (c :: cs)) :=
    atomEnd_eq h (by omega)
  unfold tokenAt lexeme
  rw [h, hstring, hatom]
  -- Both sides ask the same questions in the same order.
  split_ifs with hmarked hquote hopening hclosing
  · rfl
  · rw [Part.map_some]
  · rfl
  · rfl
  · cases d.quoteLength? (c :: cs) with
    | some n => rfl
    | none => exact Part.map_some _ _

/-- The loop from token to token ends with all tokens from there on. -/
theorem run_tokenRound (d : Dialect) (text : List Char) (i : Nat) (found : List Token) :
    Loop.run (d.tokenRound text) (i, found) =
      Part.some (found ++ d.tokensFrom i 0 (text.drop i)) := by
  -- The induction is on the number of characters that are left.
  induction hleft : text.length - i using Nat.strongRecOn generalizing i found with
  | ind left ih =>
    cases hrest : text.drop i with
    | nil =>
      have hround : d.tokenRound text (i, found) = Part.some (.inl found) := by
        rw [tokenRound, ← List.head?_drop, hrest]
        rfl
      rw [Loop.run_of_done hround, tokensFrom, List.append_nil]
    | cons c cs =>
      obtain ⟨hdrop, hlength⟩ := drop_succ_of_drop hrest
      have hhead : text[i]? = some c := by rw [← List.head?_drop, hrest, List.head?_cons]
      cases hblank : isBlank c with
      | true =>
        have hround : d.tokenRound text (i, found) = Part.some (.inr (i + 1, found)) := by
          simp only [tokenRound, hhead, hblank, if_true]
        rw [Loop.run_of_again hround, ih _ (by omega) (i + 1) found rfl, hdrop,
          tokensFrom_of_blank hblank]
      | false =>
        -- The token is not empty, so that fewer characters are left.
        have hpos := d.lexeme_pos hblank cs
        obtain ⟨n, hn⟩ := Nat.exists_eq_add_one_of_ne_zero (Nat.ne_of_gt hpos)
        have hround : d.tokenRound text (i, found) = Part.some (.inr (i + (n + 1),
            found ++ [⟨(d.lexeme c cs).1, i, i + (n + 1)⟩])) := by
          simp only [tokenRound, hhead, hblank, tokenAt_eq hrest, Part.map_some, hn]
          rfl
        have hafter : text.drop (i + (n + 1)) = cs.drop n := by
          rw [← List.drop_drop, hrest, List.drop_succ_cons]
        have hskip : d.tokensFrom (i + 1) n cs = d.tokensFrom (i + (n + 1)) 0 (cs.drop n) := by
          rw [tokensFrom_skip, Nat.add_right_comm, Nat.add_assoc]
        rw [Loop.run_of_again hround, ih _ (by omega) _ _ rfl, tokensFrom_of_not_blank hblank, hn,
          Nat.add_sub_cancel, hskip, hafter, List.append_assoc]
        rfl

/-- Whatever the delimiters and the comment marker are, cutting a text comes to an end. The tokens are
    not empty, lie one after another inside the text, and start with a character that is no blank;
    and each character that none of them covers is a blank. -/
theorem tokenize_covers (d : Dialect) (text : List Char) :
    d.tokenize text = Part.some (d.tokens text) ∧
    (∀ t ∈ d.tokens text, t.start < t.stop ∧ t.stop ≤ text.length) ∧
    (d.tokens text).Pairwise (fun t u => t.stop ≤ u.start) ∧
    (∀ p, ∀ c ∈ text[p]?, (∀ t ∈ d.tokens text, ¬ t.Covers p) → isBlank c = true) ∧
    ∀ t ∈ d.tokens text, ∃ c ∈ text[t.start]?, isBlank c = false := by
  have hlaid := d.laid_tokens text
  refine ⟨?_, fun t ht => (hlaid.bounds t ht).2, hlaid.pairwise, fun p c hc h => ?_,
    start_not_blank⟩
  · have hrun := d.run_tokenRound text 0 []
    rwa [List.nil_append, List.drop_zero] at hrun
  · exact isBlank_of_uncovered hc h

end Dialect

end SExprNav
