import SExprNav.Proofs.Token.Words

/-!
# Closing delimiters turned into blanks

A blank ends what a closing delimiter ends, and neither of them makes a quote mark of what stands
before it. So if some closing delimiters that are tokens are turned into blanks, these tokens go, and
all others stay as they are.

## Key results

- `Dialect.admits_behind`: a word admits what comes next in its text
- `Dialect.tokens_cleared`: the tokens of a text with blanks in the place of closing delimiters
-/

namespace SExprNav

open Text (isBlank)

namespace Word

/-- A blank may come in the place of a closing delimiter. -/
theorem Admits.of_closing {w : Word} {c : Char} (h : w.Admits (some c))
    (hc : c ∈ Dialect.lisp.closing) : w.Admits (some ' ') := by
  have hapart : ∀ c ∈ Dialect.lisp.closing, c ∉ Dialect.lisp.opening :=
    List.forall_mem_iff_getElem.mpr (by decide)
  obtain ⟨kind, chars⟩ := w
  cases kind with
  | comment =>
    obtain rfl := h c rfl
    exact absurd hc (by decide)
  | atom =>
    refine ⟨?_, fun _ => ?_⟩ <;> rintro _ ⟨⟩ <;> decide
  | quote =>
    refine ⟨fun hchars => ?_, fun _ => by decide⟩
    obtain ⟨o, ho, hmem⟩ := h.1 hchars
    cases ho
    exact absurd hmem (hapart c hc)
  | string | opener | closer => trivial

end Word

namespace Dialect

variable {c : Char} {cs : List Char}

/-! ## What comes next -/

/-- A comment ends at the end of the text or of its line. -/
theorem head?_drop_commentLength (cs : List Char) :
    ∀ c ∈ (cs.drop (commentLength cs)).head?, c = '\n' := by
  induction cs with
  | nil => simp
  | cons c cs ih =>
    rw [commentLength_cons]
    split
    · rintro _ ⟨⟩
      assumption
    · exact ih

/-- An atom ends at the end of the text or before a character that ends it. -/
theorem head?_drop_atomLength (cs : List Char) :
    ∀ c ∈ (cs.drop (lisp.atomLength cs)).head?, endsAtom c = true := by
  fun_induction atomLength lisp cs with
  | case1 => simp
  | case2 => simp
  | case3 c cs ih =>
    rw [Nat.add_comm]
    exact ih
  | case4 c cs _ _ hends =>
    rintro _ ⟨⟩
    rwa [← endsAtom_eq] at hends
  | case5 c cs _ _ _ ih =>
    rw [Nat.add_comm]
    exact ih

/-- A word admits what comes next in its text. -/
theorem admits_behind (hblank : isBlank c = false) :
    (lisp.first c cs).Admits (lisp.behind c cs).head? := by
  have hpos := lisp.lexeme_pos hblank cs
  unfold first behind
  obtain h | h | h | ⟨-, h⟩ | ⟨n, hmark, h⟩ | ⟨hmark, h⟩ := lexeme_cases lisp c cs <;> rw [h] at hpos ⊢
  · exact head?_drop_commentLength (c :: cs)
  · trivial
  · trivial
  · trivial
  · rw [quoteLength?_cons] at hmark
    rw [List.take_cons hpos]
    -- The length of a hash or a comma tells what comes next.
    constructor
    · intro hchars
      obtain rfl := (List.cons.inj hchars).1
      rw [if_neg (by decide), if_neg (by decide)] at hmark
      split at hmark
      · rename_i hnext
        cases hmark
        cases cs with
        | nil => cases hnext.2
        | cons o tail => exact ⟨o, rfl, List.contains_iff_mem.mp hnext.2⟩
      · cases hmark
    · intro hchars
      obtain ⟨rfl, hchars⟩ := List.cons.inj hchars
      rw [if_pos rfl] at hmark
      split at hmark
      · rename_i hat
        obtain ⟨tail, rfl⟩ := List.head?_eq_some_iff.mp hat
        cases hmark
        cases hchars
      · cases hmark
        assumption
  · refine ⟨head?_drop_atomLength (c :: cs), fun hchars o ho hopening => ?_⟩
    -- If the atom is a single hash, what comes next would make it a quote mark.
    rw [List.take_cons hpos] at hchars
    obtain ⟨rfl, hchars⟩ := List.cons.inj hchars
    obtain ⟨n, hn⟩ := Nat.exists_eq_add_one_of_ne_zero (Nat.ne_of_gt hpos)
    dsimp only at hn hchars ho
    rw [hn, Nat.add_sub_cancel, List.take_eq_nil_iff] at hchars
    rw [hn, List.drop_succ_cons] at ho
    obtain rfl | rfl := hchars
    · obtain ⟨tail, rfl⟩ := List.head?_eq_some_iff.mp ho
      rw [quoteLength?_cons, if_neg (by decide), if_neg (by decide),
        if_pos ⟨rfl, List.contains_iff_mem.mpr hopening⟩] at hmark
      cases hmark
    · simp at ho

/-- What is read as a closing delimiter is one. -/
theorem closing_of_lexeme (h : (lisp.lexeme c cs).1 = .closer) : c ∈ lisp.closing := by
  rcases lexeme_cases lisp c cs with hc | hs | ho | ⟨hc, -⟩ | ⟨n, -, hq⟩ | ⟨-, ha⟩
  case inr.inr.inr.inl => exact hc
  all_goals simp_all

/-! ## Closing delimiters -/

/-- A closing delimiter that is a token stands at a position of the text. -/
def Closes (text : List Char) (p : Nat) : Prop :=
  ∃ t ∈ lisp.tokens text, t.kind = .closer ∧ t.start = p

/-- A closing delimiter behind a blank is one of the rest. -/
theorem closes_of_blank (hblank : isBlank c = true) {p : Nat} (h : Closes (c :: cs) p) :
    ∃ q, p = q + 1 ∧ Closes cs q := by
  obtain ⟨t, ht, hkind, rfl⟩ := h
  rw [tokens_of_blank hblank] at ht
  obtain ⟨u, hu, rfl⟩ := List.mem_map.mp ht
  exact ⟨u.start, rfl, u, hu, hkind, rfl⟩

/-- A closing delimiter is the first token or one behind it. -/
theorem closes_of_not_blank (hblank : isBlank c = false) {p : Nat} (h : Closes (c :: cs) p) :
    p = 0 ∧ (lisp.lexeme c cs).1 = .closer ∨
      ∃ q, p = q + (lisp.lexeme c cs).2 ∧ Closes (lisp.behind c cs) q := by
  obtain ⟨t, ht, hkind, rfl⟩ := h
  rw [tokens_of_not_blank hblank] at ht
  obtain rfl | ht := List.mem_cons.mp ht
  · exact .inl ⟨rfl, hkind⟩
  · obtain ⟨u, hu, rfl⟩ := List.mem_map.mp ht
    exact .inr ⟨u.start, rfl, u, hu, hkind, rfl⟩

/-- The character of a closing delimiter at the start is one of the dialect. -/
theorem closing_of_closes (h : Closes (c :: cs) 0) : c ∈ lisp.closing := by
  cases hblank : isBlank c with
  | true =>
    obtain ⟨q, hq, -⟩ := closes_of_blank hblank h
    omega
  | false =>
    have hpos := lisp.lexeme_pos hblank cs
    obtain ⟨-, hkind⟩ | ⟨q, hq, -⟩ := closes_of_not_blank hblank h
    · exact closing_of_lexeme hkind
    · omega

/-! ## Clearing -/

/-- The text with blanks in the place of the characters at some positions. -/
def cleared (S : Nat → Bool) (text : List Char) : List Char :=
  text.mapIdx fun p c => if S p then ' ' else c

variable {S : Nat → Bool} {text first second : List Char}

/-- Blanks in the place of characters change no length. -/
@[simp] theorem length_cleared (S : Nat → Bool) (text : List Char) :
    (cleared S text).length = text.length := List.length_mapIdx

/-- The first character is cleared by itself. -/
theorem cleared_cons : cleared S (c :: cs) =
    (if S 0 then ' ' else c) :: cleared (fun p => S (p + 1)) cs := List.mapIdx_cons

/-- Two parts of a text are cleared one by one. -/
theorem cleared_append : cleared S (first ++ second) =
    cleared S first ++ cleared (fun p => S (p + first.length)) second := List.mapIdx_append

/-- Without a position to be cleared, the text stays as it is. -/
theorem cleared_eq_self (h : ∀ p, p < text.length → S p = false) : cleared S text = text := by
  unfold cleared
  apply List.ext_getElem List.length_mapIdx
  intro p hp hp'
  rw [List.getElem_mapIdx, h p hp']
  rfl

/-- A word admits what comes next in its text, also if closing delimiters behind it are cleared. -/
theorem admits_cleared_behind (hblank : isBlank c = false)
    (h : ∀ p, S p = true → Closes (lisp.behind c cs) p) :
    (lisp.first c cs).Admits (cleared S (lisp.behind c cs)).head? := by
  have hadmits : (lisp.first c cs).Admits (lisp.behind c cs).head? := admits_behind hblank
  generalize lisp.behind c cs = rest at h hadmits
  cases rest with
  | nil => exact hadmits
  | cons r rest =>
    rw [cleared_cons, List.head?_cons]
    split
    · rename_i hr
      exact hadmits.of_closing (closing_of_closes (h 0 hr))
    · exact hadmits

/-- Only what is behind the first word is cleared, unless this is a closing delimiter. -/
theorem cleared_of_not_blank (hblank : isBlank c = false)
    (h : ∀ p, S p = true → Closes (c :: cs) p) (hfirst : S 0 = false) :
    cleared S (c :: cs) = (lisp.first c cs).chars ++
      cleared (fun p => S (p + (lisp.lexeme c cs).2)) (lisp.behind c cs) := by
  have hlength := length_first c cs
  have hword : cleared S (lisp.first c cs).chars = (lisp.first c cs).chars := by
    apply cleared_eq_self
    intro p hp
    by_contra hS
    obtain ⟨rfl, -⟩ | ⟨q, rfl, -⟩ := closes_of_not_blank hblank (h p (by simpa using hS))
    · exact hS hfirst
    · omega
  have happend : (lisp.first c cs).chars ++ lisp.behind c cs = c :: cs :=
    List.take_append_drop _ _
  rw [← happend, cleared_append, hword, hlength]

/-- Tokens are chosen by where they start, before or after a shift. -/
theorem filter_map_shift (S : Nat → Bool) (n : Nat) (ts : List Token) :
    (ts.map (Token.shift n)).filter (fun t => !S t.start) =
      (ts.filter fun t => !S (t.start + n)).map (Token.shift n) := List.filter_map

/-- No end of a line is cleared, as no token starts with a blank. -/
theorem cleared_eq_newline_iff (h : ∀ p, S p = true → Closes text p) (p : Nat) :
    (cleared S text)[p]? = some '\n' ↔ text[p]? = some '\n' := by
  rw [cleared, List.getElem?_mapIdx]
  cases hS : S p with
  | false => simp
  | true =>
    obtain ⟨t, ht, -, rfl⟩ := h p hS
    obtain ⟨c, hc, hblank⟩ := start_not_blank t ht
    have hne : c ≠ '\n' := by
      rintro rfl
      exact absurd hblank (by decide)
    rw [Option.mem_def] at hc
    simp [hc, hne]

/-- If closing delimiters that are tokens are turned into blanks, these tokens go, and all others stay
    as they are. -/
theorem tokens_cleared (h : ∀ p, S p = true → Closes text p) :
    lisp.tokens (cleared S text) = (lisp.tokens text).filter fun t => !S t.start := by
  -- The induction is on the length of the text, as a token takes many characters at once.
  induction hlength : text.length using Nat.strongRecOn generalizing S text with
  | ind length ih =>
    subst hlength
    cases text with
    | nil => rfl
    | cons c cs =>
      cases hblank : isBlank c with
      | true =>
        have hrest : ∀ p, S (p + 1) = true → Closes cs p := by
          intro p hp
          obtain ⟨q, hq, hcloses⟩ := closes_of_blank hblank (h _ hp)
          cases hq
          exact hcloses
        have hspace : isBlank (if S 0 then ' ' else c) = true := by
          split
          · decide
          · exact hblank
        rw [cleared_cons, tokens_of_blank hspace, tokens_of_blank hblank, filter_map_shift,
          ih cs.length (Nat.lt_succ_self _) hrest rfl]
      | false =>
        have hpos := lisp.lexeme_pos hblank cs
        have hrest : ∀ p, S (p + (lisp.lexeme c cs).2) = true → Closes (lisp.behind c cs) p := by
          intro p hp
          obtain ⟨hzero, -⟩ | ⟨q, hq, hcloses⟩ := closes_of_not_blank hblank (h _ hp)
          · omega
          · obtain rfl : p = q := by omega
            exact hcloses
        have hshorter : (lisp.behind c cs).length < (c :: cs).length := by
          rw [behind, List.length_drop, List.length_cons]
          omega
        have htokens := ih _ hshorter hrest rfl
        rw [tokens_of_not_blank hblank, List.filter_cons, filter_map_shift]
        cases hfirst : S 0 with
        | true =>
          -- The first token is a closing delimiter, and a blank comes in its place.
          have hkind : (lisp.lexeme c cs).1 = .closer := by
            obtain ⟨-, hkind⟩ | ⟨q, hq, -⟩ := closes_of_not_blank hblank (h 0 hfirst)
            · exact hkind
            · omega
          have hone := lisp.lexeme_delimiter c cs (.inr hkind)
          rw [behind, hone, List.drop_succ_cons, List.drop_zero] at htokens
          rw [hone, cleared_cons, hfirst, if_pos rfl, tokens_of_blank (by decide), htokens]
          rfl
        | false =>
          -- The first token stays, and what is cleared is behind it.
          have hadmits := admits_cleared_behind hblank hrest
          have hend : lisp.behind c cs = [] →
              cleared (fun p => S (p + (lisp.lexeme c cs).2)) (lisp.behind c cs) = [] := by
            intro hnil
            rw [hnil]
            rfl
          rw [cleared_of_not_blank hblank h hfirst, tokens_first_append hblank hadmits hend, htokens]
          rfl

end Dialect

end SExprNav
