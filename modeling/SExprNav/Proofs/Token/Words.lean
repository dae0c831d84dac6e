import SExprNav.Proofs.Token.Concatenation

/-!
# Words

A word is a token without its place: its kind and its characters. In the dialect with brackets and
semicolons, a word can be cut out of its text and put before the end of a line, and is read there
again: a comment ends there, an atom and a single comma do not look farther, and what reaches to the
end of the text is the last word. Only a hash is a quote mark because of the delimiter behind it. So
the words of a text can be written with any blanks between them, beginning with the end of a line.

## Key results

- `Dialect.words_of_not_blank`: the words of a text are its first one and those behind it
- `Dialect.commentLength_take`, `Dialect.stringLength_take`, `Dialect.atomLength_take`,
  `Dialect.quoteLength?_take`: what is cut out of a text is as long there
- `Dialect.lexeme_take`: the first token, cut out of its text, is the same
- `Dialect.words_first_append`: so is the first word
- `Dialect.words_write`: the words of a text, written again, are its words
-/

namespace SExprNav

open Text (isBlank)

/-- A token without its place in the text. -/
structure Word where
  kind : Token.Kind
  chars : List Char
deriving DecidableEq, Repr

namespace Token

/-- The characters of a token of a text. -/
def chars (text : List Char) (t : Token) : List Char :=
  (text.drop t.start).take (t.stop - t.start)

/-- The kind and the characters of a token of a text. -/
def word (text : List Char) (t : Token) : Word := ⟨t.kind, t.chars text⟩

/-- A token that is moved to the right has its characters there. -/
theorem word_shift (n : Nat) (text : List Char) (t : Token) :
    (t.shift n).word text = t.word (text.drop n) := by
  simp only [word, chars, shift, List.drop_drop, Nat.add_sub_add_right, Nat.add_comm n]

end Token

namespace Dialect

variable {d : Dialect} {c : Char} {cs rest : List Char} {n : Nat}

/-- The words of a text, in order. -/
def words (d : Dialect) (text : List Char) : List Word := (d.tokens text).map (Token.word text)

/-- The first word of a text that does not start with a blank. -/
def first (d : Dialect) (c : Char) (cs : List Char) : Word :=
  ⟨(d.lexeme c cs).1, (c :: cs).take (d.lexeme c cs).2⟩

/-- What stands behind the first word. -/
def behind (d : Dialect) (c : Char) (cs : List Char) : List Char :=
  (c :: cs).drop (d.lexeme c cs).2

theorem words_nil : d.words [] = [] := rfl

theorem words_map_shift (n : Nat) (cs : List Char) :
    ((d.tokens (cs.drop n)).map (Token.shift n)).map (Token.word cs) = d.words (cs.drop n) := by
  rw [List.map_map, words]
  exact List.map_congr_left fun t _ => Token.word_shift n cs t

theorem words_of_blank (h : isBlank c = true) (cs : List Char) : d.words (c :: cs) = d.words cs := by
  rw [words, tokens_of_blank h]
  exact words_map_shift 1 (c :: cs)

theorem words_of_not_blank (h : isBlank c = false) (cs : List Char) :
    d.words (c :: cs) = d.first c cs :: d.words (d.behind c cs) := by
  rw [words, tokens_of_not_blank h, List.map_cons, words_map_shift]
  rfl

theorem words_append_of_blank {blanks : List Char} (h : ∀ c ∈ blanks, isBlank c = true)
    (cs : List Char) : d.words (blanks ++ cs) = d.words cs := by
  induction blanks with
  | nil => rfl
  | cons c blanks ih =>
    obtain ⟨hc, hblanks⟩ := List.forall_mem_cons.mp h
    rw [List.cons_append, words_of_blank hc, ih hblanks]

/-! ## Cut out of a text -/

/-- The line ends here, or the text. -/
def LineEnds (rest : List Char) : Prop := ∀ c ∈ rest.head?, c = '\n'

theorem lineEnds_cases (h : LineEnds rest) : rest = [] ∨ ∃ tail, rest = '\n' :: tail := by
  cases rest with
  | nil => exact .inl rfl
  | cons c tail =>
    obtain rfl : c = '\n' := h c rfl
    exact .inr ⟨tail, rfl⟩

theorem commentLength_of_lineEnds (h : LineEnds rest) : commentLength rest = 0 := by
  obtain rfl | ⟨tail, rfl⟩ := lineEnds_cases h <;> rfl

/-- The characters that end an atom, unless a backslash hides them. -/
def endsAtom (c : Char) : Bool := isBlank c || lisp.isDelimiter c || c == '"' || c == ';'

/-- Whether a comment starts is told by its first character. -/
theorem endsAtom_eq (c : Char) (cs : List Char) : endsAtom c =
    (isBlank c || lisp.isDelimiter c || c == '"' || lisp.marked (c :: cs)) := by
  have hmarked : lisp.marked (c :: cs) = (c == ';') := by
    rw [Bool.eq_iff_iff, Scan.marked_lisp_iff, beq_iff_eq]
  rw [endsAtom, hmarked]

theorem atomLength_eq_zero (h : ∀ c ∈ rest.head?, endsAtom c = true) : lisp.atomLength rest = 0 := by
  cases rest with
  | nil => rfl
  | cons c tail =>
    have hc : endsAtom c = true := h c rfl
    have hescape : c ≠ '\\' := by
      rintro rfl
      exact absurd hc (by decide)
    rw [atomLength_cons hescape, ← endsAtom_eq, if_pos hc]

theorem commentLength_cons (c : Char) (cs : List Char) :
    commentLength (c :: cs) = if c = '\n' then 0 else commentLength cs + 1 := by
  unfold commentLength
  by_cases h : c = '\n' <;> simp [h]

/-- A comment that is cut out of its text is as long before the end of a line. -/
theorem commentLength_take (hrest : LineEnds rest) (cs : List Char) :
    commentLength (cs.take (commentLength cs) ++ rest) = commentLength cs := by
  induction cs with
  | nil => exact commentLength_of_lineEnds hrest
  | cons c cs ih =>
    rw [commentLength_cons]
    split
    · exact commentLength_of_lineEnds hrest
    · rename_i hc
      rw [List.take_succ_cons, List.cons_append, commentLength_cons, if_neg hc, ih]

/-- A string is as long before anything, unless it was the end of the text that ended it. -/
theorem stringLength_take (hend : cs.drop (stringLength cs) = [] → rest = []) :
    stringLength (cs.take (stringLength cs) ++ rest) = stringLength cs := by
  fun_induction stringLength cs with
  | case1 =>
    rw [hend rfl]
    rfl
  | case2 cs => rfl
  | case3 =>
    rw [hend rfl]
    rfl
  | case4 c cs ih =>
    rw [Nat.add_comm 2] at hend ⊢
    rw [List.take_succ_cons, List.take_succ_cons, List.cons_append, List.cons_append, stringLength,
      ih hend, Nat.add_comm]
  | case5 c cs hquote hlast hescape ih =>
    have hescape := Scan.ne_backslash hlast hescape
    rw [Nat.add_comm 1] at hend ⊢
    rw [List.take_succ_cons, List.cons_append, stringLength_cons hquote hescape, ih hend,
      Nat.add_comm]

/-- An atom is as long before what ends an atom, unless it was the end of the text that ended it. -/
theorem atomLength_take (hrest : ∀ c ∈ rest.head?, endsAtom c = true)
    (hend : cs.drop (lisp.atomLength cs) = [] → rest = []) :
    lisp.atomLength (cs.take (lisp.atomLength cs) ++ rest) = lisp.atomLength cs := by
  fun_induction atomLength lisp cs with
  | case1 => exact atomLength_eq_zero hrest
  | case2 =>
    rw [hend rfl]
    rfl
  | case3 c cs ih =>
    rw [Nat.add_comm 2] at hend ⊢
    rw [List.take_succ_cons, List.take_succ_cons, List.cons_append, List.cons_append, atomLength,
      ih hend, Nat.add_comm]
  | case4 c cs => exact atomLength_eq_zero hrest
  | case5 c cs hlast hescape hgo ih =>
    have hescape := Scan.ne_backslash hlast hescape
    rw [Nat.add_comm 1] at hend ⊢
    -- The character that does not end the atom stays.
    rw [← endsAtom_eq] at hgo
    rw [List.take_succ_cons, List.cons_append, atomLength_cons hescape, ← endsAtom_eq, if_neg hgo,
      ih hend, Nat.add_comm]

end Dialect

/-! ## Words one after another -/

namespace Word

/-- A hash that is a quote mark. -/
def sharp : Word := ⟨.quote, ['#']⟩

/-- What may come right behind a word, so that it is read again: an opening delimiter behind a hash
    that is a quote mark, and the end of the line or of the text behind any other word. -/
def Allows (w : Word) (rest : List Char) : Prop :=
  (w = sharp → ∃ c ∈ rest.head?, c ∈ Dialect.lisp.opening) ∧ (w ≠ sharp → Dialect.LineEnds rest)

/-- The characters that may come next behind a word, if any, so that the word is read again: the end of
    the line behind a comment, what ends an atom behind an atom, and an opening delimiter behind a
    hash exactly if it is a quote mark. A single comma stays one before anything but an at sign. -/
def Admits (w : Word) (next : Option Char) : Prop :=
  match w.kind with
  | .comment => ∀ c ∈ next, c = '\n'
  | .atom => (∀ c ∈ next, Dialect.endsAtom c = true) ∧
      (w.chars = ['#'] → ∀ c ∈ next, c ∉ Dialect.lisp.opening)
  | .quote => (w.chars = ['#'] → ∃ c ∈ next, c ∈ Dialect.lisp.opening) ∧
      (w.chars = [','] → next ≠ some '@')
  | .string | .opener | .closer => True

theorem Allows.admits {w : Word} {rest : List Char} (h : w.Allows rest) : w.Admits rest.head? := by
  obtain ⟨kind, chars⟩ := w
  cases kind with
  | comment => exact h.2 (by simp [sharp])
  | atom =>
    have hline : Dialect.LineEnds rest := h.2 (by simp [sharp])
    refine ⟨fun c hc => ?_, fun _ c hc => ?_⟩ <;> obtain rfl := hline c hc <;> decide
  | quote =>
    constructor
    · rintro rfl
      exact h.1 rfl
    · rintro rfl hat
      exact absurd (h.2 (by simp [sharp]) '@' hat) (by decide)
  | string | opener | closer => trivial

/-- What stands between two words: nothing between a hash that is a quote mark and an opening
    delimiter, and otherwise the end of a line and some blanks. -/
def gap (w v : Word) (blanks : List Char) : List Char :=
  if w = sharp ∧ v.kind = .opener then [] else '\n' :: blanks

/-- Words one after another, where `blanks i` are the blanks after the word with number `i`, counted
    from zero. -/
def write (blanks : Nat → List Char) : List Word → List Char
  | [] => []
  | [w] => w.chars
  | w :: v :: ws => w.chars ++ (gap w v (blanks 0) ++ write (fun i => blanks (i + 1)) (v :: ws))

theorem exists_write_cons (blanks : Nat → List Char) (w : Word) (ws : List Word) :
    ∃ rest, write blanks (w :: ws) = w.chars ++ rest := by
  cases ws with
  | nil => exact ⟨[], (List.append_nil _).symm⟩
  | cons v ws => exact ⟨_, rfl⟩

/-- What is written behind a word is allowed there, if an opening delimiter comes after a hash. -/
theorem allows_gap {w v : Word} {ws : List Word}
    (h : w = sharp → ∃ o ∈ Dialect.lisp.opening, v = ⟨.opener, [o]⟩) (spaces : List Char)
    (blanks : Nat → List Char) : w.Allows (gap w v spaces ++ write blanks (v :: ws)) := by
  constructor
  · intro hw
    obtain ⟨o, ho, rfl⟩ := h hw
    obtain ⟨rest, hrest⟩ := exists_write_cons blanks ⟨.opener, [o]⟩ ws
    rw [gap, if_pos ⟨hw, rfl⟩, hrest]
    exact ⟨o, rfl, ho⟩
  · intro hw
    rw [gap, if_neg fun hsharp => hw hsharp.1]
    rintro c ⟨⟩
    rfl

end Word

namespace Dialect

open Word (sharp gap write)

variable {c : Char} {cs rest : List Char} {n : Nat}

theorem words_gap_append {blanks : List Char} (h : ∀ c ∈ blanks, isBlank c = true) (w v : Word)
    (cs : List Char) : lisp.words (gap w v blanks ++ cs) = lisp.words cs := by
  unfold gap
  split
  · rfl
  · rw [List.cons_append, words_of_blank Text.isBlank_newline, words_append_of_blank h]

/-- A quote mark that is cut out of its text is as long before what it admits. -/
theorem quoteLength?_take (h : lisp.quoteLength? cs = some n)
    (hrest : Word.Admits ⟨.quote, cs.take n⟩ rest.head?) :
    lisp.quoteLength? (cs.take n ++ rest) = some n := by
  unfold quoteLength? at h
  split at h
  · cases h
    rfl
  · cases h
    show lisp.quoteLength? (',' :: rest) = some 1
    rw [quoteLength?_cons, if_pos rfl, if_neg (hrest.2 rfl)]
  · cases h
    rfl
  · cases h
    rfl
  · split at h
    · cases h
      obtain ⟨o, ho, hopening⟩ := hrest.1 rfl
      obtain ⟨tail, rfl⟩ := List.head?_eq_some_iff.mp ho
      simp [quoteLength?, hopening]
    · cases h
  · cases h

/-- The beginning of a text without a quote mark has none before what an atom admits. -/
theorem quoteLength?_take_eq_none (h : lisp.quoteLength? (c :: cs) = none) (hn : n ≤ cs.length)
    (hrest : Word.Admits ⟨.atom, c :: cs.take n⟩ rest.head?) :
    lisp.quoteLength? (c :: (cs.take n ++ rest)) = none := by
  -- The next character is the same as before, or what a hash admits, which is no delimiter.
  have hnext : c = '#' → (cs.take n ++ rest).head?.any (lisp.opening.contains ·) = true →
      cs.head?.any (lisp.opening.contains ·) = true := by
    rintro rfl hopening
    cases n with
    | zero =>
      cases rest with
      | nil => cases hopening
      | cons o tail => exact absurd (List.contains_iff_mem.mp hopening) (hrest.2 rfl o rfl)
    | succ n =>
      obtain ⟨x, tail, rfl⟩ := List.exists_cons_of_length_pos (Nat.lt_of_lt_of_le n.succ_pos hn)
      exact hopening
  rw [quoteLength?_cons] at h ⊢
  grind

/-- The first token of a text, cut out of it, is the same before what the word admits, unless it was
    the end of the text that ended it. -/
theorem lexeme_take (hblank : isBlank c = false) (hrest : (lisp.first c cs).Admits rest.head?)
    (hend : lisp.behind c cs = [] → rest = []) :
    lisp.lexeme c (cs.take ((lisp.lexeme c cs).2 - 1) ++ rest) = lisp.lexeme c cs := by
  have hpos := lisp.lexeme_pos hblank cs
  unfold first at hrest
  unfold behind at hend
  unfold lexeme at hpos hrest hend ⊢
  simp only [Scan.marked_lisp_iff] at hpos hrest hend ⊢
  -- All questions but the one for a quote mark are about the first character, which stays.
  by_cases hcomment : c = ';'
  · simp only [if_pos hcomment] at hpos hrest ⊢
    rw [← List.cons_append, ← List.take_cons hpos, commentLength_take hrest]
  simp only [if_neg hcomment] at hpos hrest hend ⊢
  by_cases hstring : (c == '"') = true
  · simp only [if_pos hstring, Nat.add_comm 1, List.drop_succ_cons] at hend ⊢
    rw [Nat.add_sub_cancel, stringLength_take hend]
  simp only [if_neg hstring] at hpos hrest hend ⊢
  by_cases hopener : lisp.opening.contains c = true
  · simp only [if_pos hopener]
  simp only [if_neg hopener] at hpos hrest hend ⊢
  by_cases hcloser : lisp.closing.contains c = true
  · simp only [if_pos hcloser]
  simp only [if_neg hcloser] at hpos hrest hend ⊢
  cases hmark : lisp.quoteLength? (c :: cs) with
  | some n =>
    rw [hmark] at hpos hrest
    have hsame := quoteLength?_take hmark hrest
    rw [List.take_cons hpos, List.cons_append] at hsame
    rw [hsame]
  | none =>
    rw [hmark] at hpos hrest hend
    dsimp only at hpos hrest hend ⊢
    have hlength := atomLength_le lisp (c :: cs)
    rw [List.length_cons] at hlength
    have hends : ∀ c ∈ rest.head?, endsAtom c = true := hrest.1
    rw [List.take_cons hpos] at hrest
    rw [quoteLength?_take_eq_none hmark (by omega) hrest]
    -- It is an atom in both texts, and an atom ends where it did.
    dsimp only
    rw [← List.cons_append, ← List.take_cons hpos, atomLength_take hends hend]

theorem length_first (c : Char) (cs : List Char) :
    (lisp.first c cs).chars.length = (lisp.lexeme c cs).2 :=
  List.length_take_of_le (lisp.lexeme_le c cs)

/-- The first word of a text is a token again before what it admits, and then come the tokens of what
    is behind it. -/
theorem tokens_first_append (hblank : isBlank c = false)
    (hrest : (lisp.first c cs).Admits rest.head?) (hend : lisp.behind c cs = [] → rest = []) :
    lisp.tokens ((lisp.first c cs).chars ++ rest) =
      ⟨(lisp.lexeme c cs).1, 0, (lisp.lexeme c cs).2⟩ ::
        (lisp.tokens rest).map (Token.shift (lisp.lexeme c cs).2) := by
  have hpos := lisp.lexeme_pos hblank cs
  have hchars : (lisp.first c cs).chars ++ rest =
      c :: (cs.take ((lisp.lexeme c cs).2 - 1) ++ rest) := by
    rw [first, List.take_cons hpos, List.cons_append]
  have hread := tokens_of_not_blank (d := lisp) hblank (cs.take ((lisp.lexeme c cs).2 - 1) ++ rest)
  rw [lexeme_take hblank hrest hend, ← hchars, List.drop_left' (length_first c cs)] at hread
  exact hread

/-- The first word of a text, with something behind it that is allowed there, is read again, and then
    what is behind it. -/
theorem words_first_append (hblank : isBlank c = false) (hrest : (lisp.first c cs).Allows rest)
    (hend : lisp.behind c cs = [] → rest = []) :
    lisp.words ((lisp.first c cs).chars ++ rest) = lisp.first c cs :: lisp.words rest := by
  have hlength := length_first c cs
  have hshift := words_map_shift (d := lisp) (lisp.lexeme c cs).2 ((lisp.first c cs).chars ++ rest)
  rw [List.drop_left' hlength] at hshift
  rw [words, tokens_first_append hblank hrest.admits hend, List.map_cons, hshift, Token.word,
    Token.chars, List.drop_zero, Nat.sub_zero, List.take_left' hlength]
  rfl

/-- What the first token of a text is. -/
theorem lexeme_cases (d : Dialect) (c : Char) (cs : List Char) :
    d.lexeme c cs = (.comment, commentLength (c :: cs)) ∨
    d.lexeme c cs = (.string, 1 + stringLength cs) ∨
    d.lexeme c cs = (.opener, 1) ∨
    (c ∈ d.closing ∧ d.lexeme c cs = (.closer, 1)) ∨
    (∃ n, d.quoteLength? (c :: cs) = some n ∧ d.lexeme c cs = (.quote, n)) ∨
    (d.quoteLength? (c :: cs) = none ∧ d.lexeme c cs = (.atom, d.atomLength (c :: cs))) := by
  unfold lexeme
  split
  · simp
  split
  · simp
  split
  · simp
  split
  · simp_all
  cases d.quoteLength? (c :: cs) <;> simp

/-! ## Behind a hash -/

theorem quoteLength?_of_lexeme (h : (lisp.lexeme c cs).1 = .quote) :
    lisp.quoteLength? (c :: cs) = some (lisp.lexeme c cs).2 := by
  rcases lexeme_cases lisp c cs with hc | hs | ho | ⟨-, hc⟩ | ⟨n, hmark, hq⟩ | ⟨-, ha⟩
  case inr.inr.inr.inr.inl => rw [hq, hmark]
  all_goals simp_all

/-- An opening delimiter is a token, whatever comes behind it. -/
theorem lexeme_opening :
    ∀ o ∈ lisp.opening, isBlank o = false ∧ ∀ cs, lisp.lexeme o cs = (.opener, 1) := by
  simp only [lisp, List.forall_mem_cons]
  exact ⟨⟨rfl, fun _ => rfl⟩, ⟨rfl, fun _ => rfl⟩, ⟨rfl, fun _ => rfl⟩, List.forall_mem_nil _⟩

/-- Behind a hash that is a quote mark, the next word is an opening delimiter. -/
theorem words_behind_sharp (h : lisp.first c cs = sharp) :
    ∃ o ∈ lisp.opening, ∃ ws, lisp.words (lisp.behind c cs) = ⟨.opener, [o]⟩ :: ws := by
  obtain ⟨hkind, hchars⟩ := Word.mk.inj h
  have hmark := quoteLength?_of_lexeme hkind
  have hpos := quoteLength?_pos hmark
  rw [List.take_cons hpos] at hchars
  obtain rfl := (List.cons.inj hchars).1
  rw [quoteLength?_cons, if_neg (by decide), if_neg (by decide)] at hmark
  split at hmark
  · rename_i hnext
    rw [behind, ← Option.some.inj hmark, List.drop_succ_cons, List.drop_zero]
    obtain ⟨-, hnext⟩ := hnext
    cases cs with
    | nil => cases hnext
    | cons o tail =>
      have hopening : o ∈ lisp.opening := by simpa using hnext
      obtain ⟨hblank, hlexeme⟩ := lexeme_opening o hopening
      rw [words_of_not_blank hblank, first, hlexeme]
      exact ⟨o, hopening, _, rfl⟩
  · cases hmark

/-! ## Writing the words of a text -/

/-- The last word of a text is read again. -/
theorem words_first_last (hblank : isBlank c = false) (hlast : lisp.words (lisp.behind c cs) = []) :
    lisp.words (lisp.first c cs).chars = [lisp.first c cs] := by
  have hallows : (lisp.first c cs).Allows [] := by
    refine ⟨fun hsharp => ?_, fun _ _ h => nomatch h⟩
    -- A hash with nothing behind it would be no quote mark.
    obtain ⟨o, -, ws, hws⟩ := words_behind_sharp hsharp
    rw [hlast] at hws
    cases hws
  have hread := words_first_append hblank hallows fun _ => rfl
  rwa [List.append_nil, words_nil] at hread

/-- A word before other words of a text is read again, and then what is written of the others. -/
theorem words_first_gap {v : Word} {ws : List Word} {spaces : List Char}
    (hblank : isBlank c = false) (hspaces : ∀ c ∈ spaces, isBlank c = true)
    (hnext : lisp.words (lisp.behind c cs) = v :: ws) (blanks : Nat → List Char) :
    lisp.words ((lisp.first c cs).chars ++
        (gap (lisp.first c cs) v spaces ++ write blanks (v :: ws))) =
      lisp.first c cs :: lisp.words (write blanks (v :: ws)) := by
  have hsharp : lisp.first c cs = sharp → ∃ o ∈ lisp.opening, v = ⟨.opener, [o]⟩ := by
    intro h
    obtain ⟨o, ho, ws', hws⟩ := words_behind_sharp h
    rw [hnext] at hws
    exact ⟨o, ho, (List.cons.inj hws).1⟩
  have hsome : lisp.behind c cs ≠ [] := by
    intro h
    rw [h, words_nil] at hnext
    cases hnext
  rw [words_first_append hblank (Word.allows_gap hsharp spaces blanks) fun h => absurd h hsome,
    words_gap_append hspaces]

/-- The words of a text that are written one after another, each on a line of its own, are read
    again: there are as many tokens as in the text, of the same kinds and with the same characters.
    Only an opening delimiter stays right behind a hash that is a quote mark. -/
theorem words_write {blanks : Nat → List Char} (hblanks : ∀ i, ∀ c ∈ blanks i, isBlank c = true)
    (text : List Char) : lisp.words (write blanks (lisp.words text)) = lisp.words text := by
  -- The induction is on the length of the text, as a word takes many characters at once.
  induction hlength : text.length using Nat.strongRecOn generalizing text blanks with
  | ind length ih =>
    subst hlength
    cases text with
    | nil => rfl
    | cons c cs =>
      cases hblank : isBlank c with
      | true =>
        rw [words_of_blank hblank]
        exact ih cs.length (Nat.lt_succ_self _) hblanks cs rfl
      | false =>
        have hshorter : (lisp.behind c cs).length < (c :: cs).length := by
          have hpos := lisp.lexeme_pos hblank cs
          rw [behind, List.length_drop, List.length_cons]
          omega
        have hrest := ih _ hshorter (fun i => hblanks (i + 1)) _ rfl
        rw [words_of_not_blank hblank]
        cases hnext : lisp.words (lisp.behind c cs) with
        | nil => exact words_first_last hblank hnext
        | cons v ws =>
          rw [hnext] at hrest
          rw [write, words_first_gap hblank (hblanks 0) hnext, hrest]

/-- A hash with its list, a mark of two characters, an atom with a blank in it, a comment with a
    delimiter in it and a string that nothing closes. -/
theorem words_write_line_by_line :
    let blanks : Nat → List Char := fun _ => ['\t']
    let text := ['#', '(', ',', '@', 'b', '\\', ' ', 'c', ';', '(', '\n', '"', 'd']
    (∀ i, ∀ c ∈ blanks i, isBlank c = true) ∧
      write blanks (lisp.words text) = ['#', '(', '\n', '\t', ',', '@', '\n', '\t',
        'b', '\\', ' ', 'c', '\n', '\t', ';', '(', '\n', '\t', '"', 'd'] ∧
      (lisp.words text).length = 6 ∧
      lisp.words (write blanks (lisp.words text)) = lisp.words text := by
  intro blanks text
  have hblanks : ∀ i, ∀ c ∈ blanks i, isBlank c = true := fun _ =>
    List.forall_mem_singleton.mpr (by decide)
  exact ⟨hblanks, by decide, by decide, words_write hblanks text⟩

end Dialect

end SExprNav
