import SExprNav.Proofs.Token.Coverage
import SExprNav.Proofs.Token.Scan

/-!
# The tokens of two texts with a blank between them

A token is told by the characters from its start on, and some tokens look beyond their end: for the
end of an atom or a comment, for a comment marker or for the delimiter after a `#`. A blank that no
token covers is a boundary for all of these. So a text is cut there into the tokens of what comes
before the blank, and the tokens of what comes after it.

## Key results

- `Dialect.tokensFrom_add`: the tokens of a text do not depend on where it starts
- `Dialect.lexeme_append`: a token that ends before the blank does not see it
- `Dialect.tokens_append`: the tokens of two texts with a blank between them
- `Dialect.uncovered_iff_split`: a position is covered by no token exactly if the text can be cut there
-/

namespace SExprNav

open Text (isBlank)

namespace Token

theorem map_shift_shift (m n : Nat) (ts : List Token) :
    (ts.map (shift m)).map (shift n) = ts.map (shift (m + n)) := by
  rw [List.map_map]
  refine List.map_congr_left fun t _ => ?_
  simp only [Function.comp_apply, shift, Nat.add_assoc]

theorem shift_covers_iff {t : Token} {n p : Nat} : (t.shift n).Covers (p + n) ↔ t.Covers p := by
  simp only [Covers, shift, Nat.add_le_add_iff_right, Nat.add_lt_add_iff_right]

end Token

namespace Dialect

variable {d : Dialect} {c w : Char} {cs ds : List Char}

/-! ## Tokens counted from anywhere -/

/-- The tokens of a text do not depend on where it starts, except for their positions. -/
theorem tokensFrom_add (i n skip : Nat) (cs : List Char) :
    d.tokensFrom (i + n) skip cs = (d.tokensFrom i skip cs).map (Token.shift n) := by
  induction cs generalizing i skip with
  | nil => rfl
  | cons c cs ih =>
    have hrest : ∀ skip, d.tokensFrom (i + n + 1) skip cs =
        (d.tokensFrom (i + 1) skip cs).map (Token.shift n) := by
      intro skip
      rw [← ih, Nat.add_right_comm]
    cases skip with
    | succ skip => exact hrest skip
    | zero =>
      cases hblank : isBlank c with
      | true => rw [tokensFrom_of_blank hblank, tokensFrom_of_blank hblank, hrest]
      | false =>
        rw [tokensFrom_of_not_blank hblank, tokensFrom_of_not_blank hblank, hrest, List.map_cons,
          Token.shift, Nat.add_right_comm]

theorem tokensFrom_eq_tokens (i : Nat) (cs : List Char) :
    d.tokensFrom i 0 cs = (d.tokens cs).map (Token.shift i) := by
  rw [tokens, ← tokensFrom_add, Nat.zero_add]

theorem tokens_of_blank (h : isBlank c = true) (cs : List Char) :
    d.tokens (c :: cs) = (d.tokens cs).map (Token.shift 1) := by
  rw [tokens, tokensFrom_of_blank h, tokensFrom_eq_tokens]

/-- The tokens of a text that does not start with a blank: the first one, and those of the rest. -/
theorem tokens_of_not_blank (h : isBlank c = false) (cs : List Char) :
    d.tokens (c :: cs) = ⟨(d.lexeme c cs).1, 0, (d.lexeme c cs).2⟩ ::
      (d.tokens ((c :: cs).drop (d.lexeme c cs).2)).map (Token.shift (d.lexeme c cs).2) := by
  obtain ⟨n, hn⟩ := Nat.exists_eq_add_one_of_ne_zero (Nat.ne_of_gt (d.lexeme_pos h cs))
  rw [tokens, tokensFrom_of_not_blank h, tokensFrom_skip, tokensFrom_eq_tokens, hn,
    Nat.add_sub_cancel, List.drop_succ_cons, Nat.zero_add, Nat.zero_add, Nat.add_comm 1]

/-! ## Texts in two parts -/

/-- No token of the text in two parts covers the place where the second part starts. -/
def Apart (d : Dialect) (cs ds : List Char) : Prop :=
  ∀ t ∈ d.tokens (cs ++ ds), ¬ t.Covers cs.length

theorem Apart.of_blank (h : d.Apart (c :: cs) ds) (hblank : isBlank c = true) : d.Apart cs ds := by
  intro t ht hcovers
  refine h (t.shift 1) ?_ (Token.shift_covers_iff.mpr hcovers)
  rw [List.cons_append, tokens_of_blank hblank]
  exact List.mem_map_of_mem ht

/-- The first token ends within the first part, and no token of the rest covers the place. -/
theorem Apart.of_not_blank (h : d.Apart (c :: cs) ds) (hblank : isBlank c = false) :
    (d.lexeme c (cs ++ ds)).2 ≤ (c :: cs).length ∧
      d.Apart ((c :: cs).drop (d.lexeme c (cs ++ ds)).2) ds := by
  unfold Apart at h
  rw [List.cons_append, tokens_of_not_blank hblank] at h
  obtain ⟨hfirst, hrest⟩ := List.forall_mem_cons.mp h
  have hlength : (d.lexeme c (cs ++ ds)).2 ≤ (c :: cs).length := by
    simp only [Token.Covers] at hfirst
    omega
  refine ⟨hlength, fun t ht hcovers => ?_⟩
  refine hrest (t.shift (d.lexeme c (cs ++ ds)).2) ?_ ?_
  · rw [← List.cons_append, List.drop_append_of_le_length hlength]
    exact List.mem_map_of_mem ht
  · rw [List.length_drop] at hcovers
    have hcovers' := Token.shift_covers_iff (n := (d.lexeme c (cs ++ ds)).2).mpr hcovers
    rwa [Nat.sub_add_cancel hlength] at hcovers'

/-! ## Lengths in a longer text -/

/-- What follows a comment that has ended does not matter to it. -/
theorem commentLength_append (h : commentLength (cs ++ ds) ≤ cs.length) :
    commentLength (cs ++ ds) = commentLength cs := by
  unfold commentLength at h ⊢
  rw [List.takeWhile_append] at h ⊢
  split
  · rename_i hall
    rw [if_pos hall, List.length_append] at h
    rw [List.length_append, hall]
    omega
  · rfl

theorem stringLength_cons (hquote : c ≠ '"') (hescape : c ≠ '\\') (cs : List Char) :
    stringLength (c :: cs) = 1 + stringLength cs := by
  rw [stringLength]
  · exact hquote
  · exact fun h => absurd h hescape
  · exact fun _ _ h => absurd h hescape

theorem atomLength_cons (hescape : c ≠ '\\') (cs : List Char) :
    d.atomLength (c :: cs) =
      if isBlank c || d.isDelimiter c || c == '"' || d.marked (c :: cs) then 0
      else 1 + d.atomLength cs := by
  rw [atomLength]
  · exact fun h => absurd h hescape
  · exact fun _ _ h => absurd h hescape

/-- What follows a string that has ended does not matter to it. -/
theorem stringLength_append (h : stringLength (cs ++ ds) ≤ cs.length) :
    stringLength (cs ++ ds) = stringLength cs := by
  fun_induction stringLength cs with
  | case1 => exact Nat.le_zero.mp h
  | case2 cs => rfl
  | case3 =>
    -- A backslash at the end would hide the first character after it.
    cases ds with
    | nil => rfl
    | cons x ds =>
      simp only [List.cons_append, List.nil_append, stringLength, List.length_singleton] at h
      omega
  | case4 c cs ih =>
    simp only [List.cons_append, stringLength, List.length_cons] at h ⊢
    rw [ih (by omega)]
  | case5 c cs hquote hend hescape ih =>
    have hescape := Scan.ne_backslash hend hescape
    rw [List.cons_append, stringLength_cons hquote hescape] at h ⊢
    rw [List.length_cons] at h
    rw [ih (by omega)]

/-- A quote mark is told by its character and, for a comma and a hash, by the one after it. -/
theorem quoteLength?_cons (c : Char) (cs : List Char) :
    d.quoteLength? (c :: cs) =
      if c = ',' then if cs.head? = some '@' then some 2 else some 1
      else if c = '\x60' ∨ c = '\x27' then some 1
      else if c = '#' ∧ cs.head?.any (d.opening.contains ·) then some 1
      else none := by
  unfold quoteLength?
  split
  · simp_all
  · rename_i tail hat heq
    obtain ⟨rfl, rfl⟩ := List.cons.inj heq
    have hhead : cs.head? ≠ some '@' := by
      intro h
      obtain ⟨tail, rfl⟩ := List.head?_eq_some_iff.mp h
      exact hat tail rfl
    rw [if_pos rfl, if_neg hhead]
  · simp_all
  · simp_all
  · simp_all
  · cases cs <;> simp_all

/-- A blank after it does not make a quote mark, nor does it lengthen one. -/
theorem quoteLength?_append (hopening : ∀ c ∈ d.opening, isBlank c = false)
    (hw : isBlank w = true) :
    d.quoteLength? (c :: (cs ++ w :: ds)) = d.quoteLength? (c :: cs) := by
  have hat : w ≠ '@' := by
    rintro rfl
    exact absurd hw (by decide)
  have hnot : w ∉ d.opening := by
    intro hmem
    exact absurd hw (by simp [hopening w hmem])
  rw [quoteLength?_cons, quoteLength?_cons]
  cases cs with
  | nil => simp [hat, hnot]
  | cons x cs => rfl

/-- The comment marker has no end of the line, so that a comment is at least as long as it. -/
theorem length_marker_le (hmarker : '\n' ∉ d.marker) (h : d.marked cs = true) :
    d.marker.length ≤ commentLength cs := by
  obtain ⟨rest, rfl⟩ := List.isPrefixOf_iff_prefix.mp h
  rw [commentLength, List.takeWhile_append_of_pos, List.length_append]
  · exact Nat.le_add_right _ _
  · intro c hc
    rw [bne_iff_ne]
    rintro rfl
    exact hmarker hc

/-- A comment marker that stands at the start of a text, and within the first of its two parts. -/
theorem marked_append (h : d.marked (cs ++ ds) = true) (hlength : d.marker.length ≤ cs.length) :
    d.marked cs = true := by
  have hmarker := List.isPrefixOf_iff_prefix.mp h
  exact List.isPrefixOf_iff_prefix.mpr
    (List.prefix_of_prefix_length_le hmarker (List.prefix_append cs ds) hlength)

theorem marked_append_of_marked (h : d.marked cs = true) : d.marked (cs ++ ds) = true := by
  have hmarker := List.isPrefixOf_iff_prefix.mp h
  exact List.isPrefixOf_iff_prefix.mpr (hmarker.trans (List.prefix_append cs ds))

/-- A comment marker is told within the first part, if no comment reaches beyond it. -/
theorem marked_append_iff (hmarker : '\n' ∉ d.marker) (hapart : d.Apart (c :: cs) ds)
    (hblank : isBlank c = false) :
    d.marked (c :: (cs ++ ds)) = true ↔ d.marked (c :: cs) = true := by
  refine ⟨fun h => ?_, marked_append_of_marked⟩
  obtain ⟨hlength, -⟩ := hapart.of_not_blank hblank
  rw [lexeme, if_pos h] at hlength
  rw [← List.cons_append] at h hlength
  exact marked_append h (Nat.le_trans (length_marker_le hmarker h) hlength)

/-- What follows an atom that has ended does not matter to it, if the atom has not ended for a
    comment that reaches there. -/
theorem atomLength_append (hmarker : '\n' ∉ d.marker) (hw : isBlank w = true)
    (h : d.atomLength (cs ++ w :: ds) ≤ cs.length)
    (hapart : d.Apart (cs.drop (d.atomLength (cs ++ w :: ds))) (w :: ds)) :
    d.atomLength (cs ++ w :: ds) = d.atomLength cs := by
  have hwescape : w ≠ '\\' := by
    rintro rfl
    exact absurd hw (by decide)
  fun_induction atomLength d cs with
  | case1 => exact Nat.le_zero.mp h
  | case2 =>
    simp only [List.cons_append, List.nil_append, atomLength, List.length_singleton] at h
    omega
  | case3 c cs ih =>
    simp only [List.cons_append, atomLength, List.length_cons] at h hapart ⊢
    rw [ih (by omega) (by simpa [Nat.add_comm 2] using hapart)]
  | case4 c cs hend hescape hstop =>
    have hstop' : (isBlank c || d.isDelimiter c || c == '"' ||
        d.marked (c :: (cs ++ w :: ds))) = true := by
      rw [Bool.or_eq_true] at hstop ⊢
      exact hstop.imp_right marked_append_of_marked
    rw [List.cons_append, atomLength_cons (Scan.ne_backslash hend hescape), if_pos hstop']
  | case5 c cs hend hescape hgo ih =>
    rw [List.cons_append, atomLength_cons (Scan.ne_backslash hend hescape)] at h hapart ⊢
    -- If the atom ended here, it would do so for a marker that reaches beyond the first part.
    have hgo' : ¬ (isBlank c || d.isDelimiter c || c == '"' ||
        d.marked (c :: (cs ++ w :: ds))) = true := by
      intro hstop
      rw [if_pos hstop, List.drop_zero] at hapart
      rw [Bool.or_eq_true, not_or] at hgo
      rw [Bool.or_eq_true] at hstop
      have hblank : isBlank c = false := by simp_all
      have hmarked := (marked_append_iff hmarker hapart hblank).mp (hstop.resolve_left hgo.1)
      exact hgo.2 hmarked
    rw [if_neg hgo'] at h hapart ⊢
    rw [List.length_cons] at h
    rw [Nat.add_comm 1, List.drop_succ_cons] at hapart
    rw [ih (by omega) hapart]

/-! ## Tokens in a longer text -/

/-- A token that ends before the blank does not see it, nor what follows. -/
theorem lexeme_append (hopening : ∀ c ∈ d.opening, isBlank c = false) (hmarker : '\n' ∉ d.marker)
    (hw : isBlank w = true) (hapart : d.Apart (c :: cs) (w :: ds)) (hblank : isBlank c = false) :
    d.lexeme c (cs ++ w :: ds) = d.lexeme c cs := by
  obtain ⟨hlength, hnext⟩ := hapart.of_not_blank hblank
  have hmarked : d.marked (c :: (cs ++ w :: ds)) = d.marked (c :: cs) :=
    Bool.eq_iff_iff.mpr (marked_append_iff hmarker hapart hblank)
  have hquote : d.quoteLength? (c :: (cs ++ w :: ds)) = d.quoteLength? (c :: cs) :=
    quoteLength?_append hopening hw
  unfold lexeme at hlength hnext ⊢
  rw [hmarked, hquote] at hlength hnext ⊢
  -- The questions are the same now. What is left are the lengths, which are those of the first part.
  by_cases hcomment : d.marked (c :: cs) = true
  · simp only [if_pos hcomment] at hlength ⊢
    rw [← List.cons_append, commentLength_append hlength]
  simp only [if_neg hcomment] at hlength hnext ⊢
  by_cases hstring : (c == '"') = true
  · simp only [if_pos hstring, List.length_cons] at hlength ⊢
    rw [stringLength_append (by omega)]
  simp only [if_neg hstring] at hlength hnext ⊢
  by_cases hopener : d.opening.contains c = true
  · simp only [if_pos hopener]
  simp only [if_neg hopener] at hlength hnext ⊢
  by_cases hcloser : d.closing.contains c = true
  · simp only [if_pos hcloser]
  simp only [if_neg hcloser] at hlength hnext ⊢
  cases hmark : d.quoteLength? (c :: cs) with
  | some n => rfl
  | none =>
    rw [hmark] at hlength hnext
    dsimp only at hlength hnext ⊢
    rw [← List.cons_append, atomLength_append hmarker hw hlength hnext]

/-- The tokens of two texts with a blank between them that no token covers are those of the first
    text, and those of the second one, moved to the right. -/
theorem tokens_append (hopening : ∀ c ∈ d.opening, isBlank c = false) (hmarker : '\n' ∉ d.marker)
    (hw : isBlank w = true) (hapart : d.Apart cs (w :: ds)) :
    d.tokens (cs ++ w :: ds) =
      d.tokens cs ++ (d.tokens ds).map (Token.shift (cs.length + 1)) := by
  -- The induction is on the length of the first text, as a token takes many characters at once.
  induction hlength : cs.length using Nat.strongRecOn generalizing cs with
  | ind length ih =>
    subst hlength
    cases cs with
    | nil => exact tokens_of_blank hw ds
    | cons c cs =>
      cases hblank : isBlank c with
      | true =>
        have hrest := ih cs.length (Nat.lt_succ_self _) (hapart.of_blank hblank) rfl
        rw [List.cons_append, tokens_of_blank hblank, hrest, tokens_of_blank hblank, List.map_append,
          Token.map_shift_shift, List.length_cons]
      | false =>
        obtain ⟨hle, hnext⟩ := hapart.of_not_blank hblank
        have hpos := d.lexeme_pos hblank cs
        have hlexeme := lexeme_append hopening hmarker hw hapart hblank
        rw [hlexeme] at hle hnext
        have hrest := ih _ (by rw [List.length_drop]; omega) hnext rfl
        rw [List.cons_append, tokens_of_not_blank hblank, hlexeme, ← List.cons_append,
          List.drop_append_of_le_length hle, hrest, tokens_of_not_blank hblank, List.map_append,
          Token.map_shift_shift, List.length_drop, List.cons_append]
        congr 4
        omega

/-- The tokens of what comes before a position and after it do not cover the position. -/
theorem not_covers_of_mem_split {text : List Char} {p : Nat} {t : Token}
    (ht : t ∈ d.tokens (text.take p) ++ (d.tokens (text.drop (p + 1))).map (Token.shift (p + 1))) :
    ¬ t.Covers p := by
  rintro ⟨hstart, hstop⟩
  cases List.mem_append.mp ht with
  | inl hbefore =>
    obtain ⟨-, -, hend⟩ := (d.laid_tokens _).bounds t hbefore
    have hlength := List.length_take_le p text
    omega
  | inr hafter =>
    obtain ⟨u, -, rfl⟩ := List.mem_map.mp hafter
    have hmoved : (u.shift (p + 1)).start = u.start + (p + 1) := rfl
    omega

/-- A position lies inside no token exactly if the tokens of the text are those of what comes before
    it, and those of what comes after it, moved to the right. The character there is a blank then. -/
theorem uncovered_iff_split (hopening : ∀ c ∈ d.opening, isBlank c = false)
    (hmarker : '\n' ∉ d.marker) {text : List Char} {p : Nat} (hp : p < text.length) :
    (∀ t ∈ d.tokens text, ¬ t.Covers p) ↔
      d.tokens text =
        d.tokens (text.take p) ++ (d.tokens (text.drop (p + 1))).map (Token.shift (p + 1)) := by
  constructor
  · intro h
    have hblank : isBlank text[p] = true := isBlank_of_uncovered (List.getElem?_eq_getElem hp) h
    have hlength : (text.take p).length = p := List.length_take_of_le (Nat.le_of_lt hp)
    have htext : text = text.take p ++ text[p] :: text.drop (p + 1) := by
      rw [← List.drop_eq_getElem_cons hp, List.take_append_drop]
    have hapart : d.Apart (text.take p) (text[p] :: text.drop (p + 1)) := by
      rwa [Apart, hlength, ← htext]
    have hsplit := tokens_append hopening hmarker hblank hapart
    rwa [hlength, ← htext] at hsplit
  · intro h t ht
    rw [h] at ht
    exact not_covers_of_mem_split ht

/-- A marker of two characters around the place: neither of the single semicolons starts a comment. -/
theorem uncovered_iff_split_at_marker :
    let d : Dialect := ⟨['('], [')'], [';', ';']⟩
    let text := ['a', ';', ' ', ';', 'b']
    (∀ c ∈ d.opening, isBlank c = false) ∧ '\n' ∉ d.marker ∧ 2 < text.length ∧
      d.tokens text = [⟨.atom, 0, 2⟩, ⟨.atom, 3, 5⟩] ∧
      ((∀ t ∈ d.tokens text, ¬ t.Covers 2) ↔
        d.tokens text = d.tokens (text.take 2) ++ (d.tokens (text.drop 3)).map (Token.shift 3)) := by
  intro d text
  have hopening : ∀ c ∈ d.opening, isBlank c = false := List.forall_mem_singleton.mpr (by decide)
  have hmarker : '\n' ∉ d.marker := by decide
  have hp : 2 < text.length := by decide
  exact ⟨hopening, hmarker, hp, by decide, uncovered_iff_split hopening hmarker hp⟩

end Dialect

end SExprNav
