import Mathlib.Data.List.Basic
import SExprNav.Cursor

/-!
# Scanning one character at a time

In the dialect with brackets and semicolons, what a character means depends on five states only: it
stands in code, in a string or in a comment, or after a backslash in code or in a string. A `Scan`
goes from one state to the next with each character and never looks ahead. It finds the places where
delimiters, strings and comments start, although atoms are cut as a whole, quote marks look ahead and
backslashes take two characters at once.

## Key results

- `Scan.silent_stringLength`, `Scan.silent_commentLength`, `Scan.silent_atomLength`: nothing starts
  inside a string, a comment or an atom, and after it there is code
- `Scan.marks_lexeme`: where a token stands, what the scan sees to start is that token
- `Dialect.filterMap_tokensFrom`: the scan finds the tokens that are no atoms and no quote marks
- `Document.starts_iff_shows`: what starts at a position is told by the scan up to there
-/

namespace SExprNav

open Token (Kind)

/-- What a text may be in the middle of. -/
inductive Scan where
  | code
  /-- After a backslash in code. -/
  | escape
  | string
  /-- After a backslash in a string. -/
  | stringEscape
  | comment
deriving DecidableEq, Repr

namespace Scan

/-- The state after one more character. -/
def next : Scan → Char → Scan
  | .code, c =>
    if c = '"' then .string else if c = ';' then .comment else if c = '\\' then .escape else .code
  | .escape, _ => .code
  | .string, c => if c = '"' then .code else if c = '\\' then .stringEscape else .string
  | .stringEscape, _ => .string
  | .comment, c => if c = '\n' then .code else .comment

/-- The state after a text. -/
def after (cs : List Char) : Scan := cs.foldl next .code

/-- In code, a character of some class stands at position `p` of a text. -/
def Shows (text : List Char) (p : Nat) (P : Char → Prop) : Prop :=
  after (text.take p) = .code ∧ ∃ c ∈ text[p]?, P c

/-- What starts with a character that stands in code, if something starts there at all. -/
def kind? (c : Char) : Option Kind :=
  if c = '"' then some .string
  else if c = ';' then some .comment
  else if c ∈ Dialect.lisp.opening then some .opener
  else if c ∈ Dialect.lisp.closing then some .closer
  else none

/-- What starts with a character, in some state. -/
def mark? : Scan → Char → Option Kind
  | .code, c => kind? c
  | _, _ => none

/-- What starts in a text whose first character has position `i` and is met in some state: each time
    the kind, with the position. -/
def marks : Scan → (i : Nat) → List Char → List (Kind × Nat)
  | _, _, [] => []
  | s, i, c :: cs => ((s.mark? c).map (·, i)).toList ++ marks (s.next c) (i + 1) cs

/-- In some state, nothing starts in the next `n` characters, and after them there is code. -/
def Silent (s : Scan) (n : Nat) (cs : List Char) : Prop :=
  ∀ i, marks s i cs = marks .code (i + n) (cs.drop n)

section Silent

variable {s : Scan} {n : Nat} {c : Char} {cs : List Char}

theorem silent_zero : Silent .code 0 cs := fun _ => rfl

/-- Nothing starts where the text ends. -/
theorem silent_nil : Silent s n [] := fun _ => by simp [marks]

theorem silent_cons (hmark : s.mark? c = none) (h : Silent (s.next c) n cs) :
    Silent s (n + 1) (c :: cs) := by
  intro i
  rw [marks, hmark, h (i + 1), Nat.add_right_comm, Nat.add_assoc]
  rfl

theorem Silent.trans {m : Nat} (h : Silent s n cs) (h' : Silent .code m (cs.drop n)) :
    Silent s (n + m) cs := by
  intro i
  rw [h i, h' (i + n), List.drop_drop, Nat.add_assoc]

end Silent

/-! ## Single characters -/

/-- A character with which nothing starts and that leaves the scan in code. -/
def Plain (c : Char) : Prop := kind? c = none ∧ c ≠ '\\'

theorem kind?_eq_none_iff {c : Char} : kind? c = none ↔
    c ≠ '"' ∧ c ≠ ';' ∧ Dialect.lisp.isDelimiter c = false := by
  unfold kind? Dialect.isDelimiter
  by_cases hquote : c = '"'
  · simp [hquote]
  by_cases hmarker : c = ';'
  · simp [hmarker]
  by_cases hopening : c ∈ Dialect.lisp.opening
  · simp [hquote, hmarker, hopening]
  · simp [hquote, hmarker, hopening]

theorem next_code_of_plain {c : Char} (h : Plain c) : next .code c = .code := by
  obtain ⟨hquote, hmarker, -⟩ := kind?_eq_none_iff.mp h.1
  simp [next, hquote, hmarker, h.2]

theorem silent_plain {c : Char} (h : Plain c) (cs : List Char) : Silent .code 1 (c :: cs) :=
  silent_cons h.1 (by rw [next_code_of_plain h]; exact silent_zero)

/-- Blanks are plain. -/
theorem plain_of_isBlank {c : Char} (h : Text.isBlank c = true) : Plain c := by
  have hne : ∀ d, Text.isBlank d = false → c ≠ d := by
    rintro d hd rfl
    rw [h] at hd
    cases hd
  -- The delimiters are looked at one by one, and not all characters.
  have hdelimiter : ∀ d ∈ Dialect.lisp.opening ++ Dialect.lisp.closing, Text.isBlank d = false :=
    List.forall_mem_iff_getElem.mpr (by decide)
  refine ⟨kind?_eq_none_iff.mpr ⟨hne _ (by decide), hne _ (by decide), ?_⟩, hne _ (by decide)⟩
  rw [← Bool.not_eq_true]
  intro hc
  have hmem : c ∈ Dialect.lisp.opening ++ Dialect.lisp.closing := by
    simpa [Dialect.isDelimiter] using hc
  exact hne c (hdelimiter c hmem) rfl

theorem marked_lisp_iff {c : Char} {cs : List Char} :
    Dialect.lisp.marked (c :: cs) = true ↔ c = ';' := by
  simp only [Dialect.marked, Dialect.lisp, List.isPrefixOf, Bool.and_true, beq_iff_eq]
  exact eq_comm

/-! ## Inside a token -/

section Inside

variable {c : Char} {cs : List Char}

/-- A character that is no escape, neither at the end of the text nor before another character, is no
    backslash. -/
theorem ne_backslash (hend : c = '\\' → cs = [] → False)
    (hescape : ∀ d ds, c = '\\' → cs = d :: ds → False) : c ≠ '\\' := by
  intro hc
  cases cs with
  | nil => exact hend hc rfl
  | cons d ds => exact hescape d ds hc rfl

/-- Nothing starts inside a string, and after it there is code. -/
theorem silent_stringLength (cs : List Char) : Silent .string (Dialect.stringLength cs) cs := by
  fun_induction Dialect.stringLength cs with
  | case1 => exact silent_nil
  | case2 cs => exact silent_cons rfl silent_zero
  | case3 => exact silent_cons rfl silent_nil
  | case4 c cs ih =>
    rw [Nat.add_comm]
    exact silent_cons rfl (silent_cons rfl ih)
  | case5 c cs hquote hend hescape ih =>
    have hnext : next .string c = .string := by
      simp [next, ne_backslash hend hescape, show c ≠ '"' from hquote]
    rw [Nat.add_comm]
    exact silent_cons rfl (hnext.symm ▸ ih)

/-- Nothing starts inside an atom, and after it there is code. -/
theorem silent_atomLength (cs : List Char) :
    Silent .code (Dialect.lisp.atomLength cs) cs := by
  fun_induction Dialect.atomLength Dialect.lisp cs with
  | case1 => exact silent_nil
  | case2 => exact silent_cons rfl silent_nil
  | case3 c cs ih =>
    rw [Nat.add_comm]
    exact silent_cons rfl (silent_cons rfl ih)
  | case4 => exact silent_zero
  | case5 c cs hend hescape hgo ih =>
    have hplain : Plain c := by
      simp only [Bool.or_eq_true, beq_iff_eq, marked_lisp_iff, not_or, Bool.not_eq_true] at hgo
      obtain ⟨⟨⟨-, hdelimiter⟩, hquote⟩, hmarker⟩ := hgo
      exact ⟨kind?_eq_none_iff.mpr ⟨hquote, hmarker, hdelimiter⟩, ne_backslash hend hescape⟩
    exact (silent_plain hplain cs).trans ih

/-- Nothing starts inside a comment. The end of the line is code again, except that the scan has yet
    to see it. -/
theorem silent_commentLength (cs : List Char) :
    Silent .comment (Dialect.commentLength cs) cs := by
  unfold Dialect.commentLength
  induction cs with
  | nil => exact silent_nil
  | cons c cs ih =>
    by_cases hc : c = '\n'
    · subst hc
      intro i
      rfl
    · have hnext : next .comment c = .comment := by simp [next, hc]
      rw [List.takeWhile_cons_of_pos (by simpa using hc), List.length_cons]
      exact silent_cons rfl (hnext.symm ▸ ih)

/-- Nothing starts inside a quote mark, and after it there is code. -/
theorem silent_quoteLength? {n : Nat} (h : Dialect.lisp.quoteLength? cs = some n) :
    Silent .code n cs := by
  unfold Dialect.quoteLength? at h
  split at h
  · cases h
    exact (silent_plain ⟨by decide, by decide⟩ _).trans (silent_plain ⟨by decide, by decide⟩ _)
  · cases h
    exact silent_plain ⟨by decide, by decide⟩ _
  · cases h
    exact silent_plain ⟨by decide, by decide⟩ _
  · cases h
    exact silent_plain ⟨by decide, by decide⟩ _
  · split at h
    · cases h
      exact silent_plain ⟨by decide, by decide⟩ _
    · cases h
  · cases h

end Inside

/-! ## Tokens -/

section Tokens

variable {c : Char} {cs : List Char}

/-- A delimiter, or the first character of a string or a comment, is seen where it stands. -/
theorem marks_of_kind? {k : Kind} {n : Nat} (hkind : kind? c = some k)
    (hsilent : Silent (next .code c) n cs) (i : Nat) :
    marks .code i (c :: cs) = (k, i) :: marks .code (i + (n + 1)) (cs.drop n) := by
  rw [marks, mark?, hkind, hsilent (i + 1), Nat.add_right_comm, Nat.add_assoc]
  rfl

/-- Delimiters leave the scan in code. -/
theorem next_delimiter :
    ∀ c ∈ Dialect.lisp.opening ++ Dialect.lisp.closing, next .code c = .code :=
  List.forall_mem_iff_getElem.mpr (by decide)

end Tokens

end Scan

/-- What the scan has to see of a token: its kind and its start, unless it is an atom or a quote
    mark. -/
def Token.mark? (t : Token) : Option (Kind × Nat) :=
  match t.kind with
  | .atom | .quote => none
  | k => some (k, t.start)

namespace Scan

/-- Where a token stands, what the scan sees to start is that token, and after it there is code. -/
theorem marks_lexeme {c : Char} (i : Nat) (cs : List Char) :
    marks .code i (c :: cs) =
      (Token.mark? ⟨(Dialect.lisp.lexeme c cs).1, i, i + (Dialect.lisp.lexeme c cs).2⟩).toList ++
        marks .code (i + (Dialect.lisp.lexeme c cs).2) ((c :: cs).drop (Dialect.lisp.lexeme c cs).2) := by
  unfold Dialect.lexeme
  by_cases hmarker : Dialect.lisp.marked (c :: cs) = true
  · obtain rfl := marked_lisp_iff.mp hmarker
    have hlength : Dialect.commentLength (';' :: cs) = Dialect.commentLength cs + 1 := by
      unfold Dialect.commentLength
      rw [List.takeWhile_cons_of_pos (by decide), List.length_cons]
    have hsilent : Silent (next .code ';') (Dialect.commentLength cs) cs := silent_commentLength cs
    rw [if_pos hmarker, hlength]
    exact marks_of_kind? rfl hsilent i
  rw [if_neg hmarker]
  by_cases hquote : (c == '"') = true
  · obtain rfl := beq_iff_eq.mp hquote
    have hsilent : Silent (next .code '"') (Dialect.stringLength cs) cs := silent_stringLength cs
    rw [if_pos hquote, Nat.add_comm 1]
    exact marks_of_kind? rfl hsilent i
  rw [if_neg hquote]
  -- A delimiter stands for itself, and the code goes on right behind it.
  rw [marked_lisp_iff] at hmarker
  rw [beq_iff_eq] at hquote
  by_cases hopening : Dialect.lisp.opening.contains c = true
  · rw [if_pos hopening]
    rw [List.contains_iff_mem] at hopening
    have hkind : kind? c = some .opener := by simp [kind?, hquote, hmarker, hopening]
    have hnext := next_delimiter c (List.mem_append_left _ hopening)
    exact marks_of_kind? hkind (hnext.symm ▸ silent_zero) i
  rw [if_neg hopening]
  by_cases hclosing : Dialect.lisp.closing.contains c = true
  · rw [if_pos hclosing]
    rw [List.contains_iff_mem] at hopening hclosing
    have hkind : kind? c = some .closer := by simp [kind?, hquote, hmarker, hopening, hclosing]
    have hnext := next_delimiter c (List.mem_append_right _ hclosing)
    exact marks_of_kind? hkind (hnext.symm ▸ silent_zero) i
  rw [if_neg hclosing]
  cases hlength : Dialect.lisp.quoteLength? (c :: cs) with
  | some n => exact silent_quoteLength? hlength i
  | none => exact silent_atomLength (c :: cs) i

end Scan

namespace Dialect

/-- The scan finds the tokens of a text that are no atoms and no quote marks, where they start. -/
theorem filterMap_tokensFrom (i skip : Nat) (cs : List Char) :
    (lisp.tokensFrom i skip cs).filterMap Token.mark? =
      Scan.marks .code (i + skip) (cs.drop skip) := by
  induction cs generalizing i skip with
  | nil => simp [tokensFrom, Scan.marks]
  | cons c cs ih =>
    cases skip with
    | succ skip =>
      rw [tokensFrom, ih, List.drop_succ_cons, Nat.add_assoc, Nat.add_comm 1]
    | zero =>
      unfold tokensFrom
      by_cases hblank : Text.isBlank c = true
      · rw [if_pos hblank, ih]
        exact (Scan.silent_plain (Scan.plain_of_isBlank hblank) cs i).symm
      · rw [if_neg hblank]
        -- After its first character, the rest of the token is passed over.
        have hpos := lisp.lexeme_pos (Bool.eq_false_iff.mpr hblank) cs
        obtain ⟨n, hn⟩ := Nat.exists_eq_succ_of_ne_zero (Nat.ne_of_gt hpos)
        have hrest : (lisp.tokensFrom (i + 1) n cs).filterMap Token.mark? =
            Scan.marks .code (i + (n + 1)) ((c :: cs).drop (n + 1)) := by
          rw [ih, List.drop_succ_cons, Nat.add_right_comm, Nat.add_assoc]
        have hfirst := Scan.marks_lexeme (c := c) i cs
        show _ = Scan.marks .code i (c :: cs)
        dsimp only
        rw [hfirst, hn, Nat.succ_sub_one, List.filterMap_cons, hrest]
        cases Token.mark? ⟨(lisp.lexeme c cs).1, i, i + (n + 1)⟩ <;> rfl

/-- The scan finds the tokens of a text that are no atoms and no quote marks. -/
theorem filterMap_tokens (text : List Char) :
    (lisp.tokens text).filterMap Token.mark? = Scan.marks .code 0 text :=
  filterMap_tokensFrom 0 0 text

/-- Of four opening delimiters, one stands in a string, one is escaped and one stands in a comment. -/
example : Scan.marks .code 0 ['"', '(', '"', '\\', '(', '(', ';', '('] =
    [(.string, 0), (.opener, 5), (.comment, 6)] := by decide

end Dialect

namespace Scan

theorem mem_marks_cons {s : Scan} {i p : Nat} {c : Char} {cs : List Char} {k : Kind} :
    (k, p) ∈ marks s i (c :: cs) ↔
      s.mark? c = some k ∧ p = i ∨ (k, p) ∈ marks (s.next c) (i + 1) cs := by
  rw [marks, List.mem_append]
  cases s.mark? c <;> simp [Prod.ext_iff, eq_comm]

theorem le_of_mem_marks {s : Scan} {i p : Nat} {cs : List Char} {k : Kind}
    (h : (k, p) ∈ marks s i cs) : i ≤ p := by
  induction cs generalizing s i with
  | nil => exact nomatch h
  | cons c cs ih =>
    cases mem_marks_cons.mp h with
    | inl hfirst => exact Nat.le_of_eq hfirst.2.symm
    | inr hrest => exact Nat.le_of_succ_le (ih hrest)

/-- What the scan finds, by position: something starts at a position if a character stands there
    with which it starts in the state that the characters before it lead to. -/
theorem mem_marks_iff {s : Scan} {i p : Nat} {cs : List Char} {k : Kind} :
    (k, i + p) ∈ marks s i cs ↔ ∃ c ∈ cs[p]?, ((cs.take p).foldl next s).mark? c = some k := by
  induction cs generalizing s i p with
  | nil => simp [marks]
  | cons c cs ih =>
    rw [mem_marks_cons]
    cases p with
    | zero =>
      have hlater : (k, i) ∉ marks (s.next c) (i + 1) cs :=
        fun h => Nat.not_succ_le_self i (le_of_mem_marks h)
      simp [hlater]
    | succ p =>
      have hih := ih (s := s.next c) (i := i + 1) (p := p)
      rw [Nat.add_right_comm, Nat.add_assoc] at hih
      simp [hih]

/-- Something starts only in code. -/
theorem mark?_eq_some_iff {s : Scan} {c : Char} {k : Kind} :
    s.mark? c = some k ↔ s = .code ∧ kind? c = some k := by
  cases s <;> simp [mark?]

/-- The characters with which a token of some kind starts when they stand in code. Atoms and quote
    marks are not told by a single character. -/
def Begins : Kind → Char → Prop
  | .opener, c => c ∈ Dialect.lisp.opening
  | .closer, c => c ∈ Dialect.lisp.closing
  | .comment, c => c = ';'
  | .string, c => c = '"'
  | .atom, _ | .quote, _ => False

theorem kind?_eq_some_iff {c : Char} {k : Kind} : kind? c = some k ↔ Begins k c := by
  constructor
  · intro h
    unfold kind? at h
    split at h
    · cases h; assumption
    split at h
    · cases h; assumption
    split at h
    · cases h; assumption
    split at h
    · cases h; assumption
    · cases h
  · cases k with
    | opener =>
      have hopening : ∀ c ∈ Dialect.lisp.opening, kind? c = some .opener :=
        List.forall_mem_iff_getElem.mpr (by decide)
      exact hopening c
    | closer =>
      have hclosing : ∀ c ∈ Dialect.lisp.closing, kind? c = some .closer :=
        List.forall_mem_iff_getElem.mpr (by decide)
      exact hclosing c
    | comment | string => rintro rfl; rfl
    | atom | quote => exact False.elim

end Scan

theorem Token.mark?_eq_some_iff {t : Token} {k : Kind} {p : Nat} (hatom : k ≠ .atom)
    (hquote : k ≠ .quote) : t.mark? = some (k, p) ↔ t.kind = k ∧ t.start = p := by
  unfold Token.mark?
  cases ht : t.kind with
  | atom => simp [hatom.symm]
  | quote => simp [hquote.symm]
  | string | comment | opener | closer => simp

namespace Document

/-- A token of some kind starts at position `p`. -/
def Starts (doc : Document) (k : Kind) (p : Nat) : Prop :=
  ∃ t ∈ doc.tokens, t.kind = k ∧ t.start = p

theorem starts_iff_onToken {doc : Document} {k : Kind} {c : Cursor doc} :
    doc.Starts k c.pos ↔ c.onToken k = true := by
  simp [Starts, Cursor.onToken]

/-- A token that is no atom and no quote mark starts where a character stands in code that begins
    one. -/
theorem starts_iff_begins {text : List Char} {k : Kind} {p : Nat} (hatom : k ≠ .atom)
    (hquote : k ≠ .quote) :
    (ofText .lisp text).Starts k p ↔ Scan.Shows text p (Scan.Begins k) := by
  have hmarks : (ofText .lisp text).Starts k p ↔ (k, 0 + p) ∈ Scan.marks .code 0 text := by
    rw [← Dialect.filterMap_tokens, List.mem_filterMap, Nat.zero_add]
    simp only [Token.mark?_eq_some_iff hatom hquote]
    rfl
  rw [hmarks, Scan.mem_marks_iff]
  simp only [Scan.mark?_eq_some_iff, Scan.kind?_eq_some_iff]
  constructor
  · rintro ⟨c, hc, hcode, hbegins⟩
    exact ⟨hcode, c, hc, hbegins⟩
  · rintro ⟨hcode, c, hc, hbegins⟩
    exact ⟨c, hc, hcode, hbegins⟩

/-- In the dialect with brackets and semicolons, a delimiter, a comment or a string starts at a
    position exactly if its first character stands there and the scan of what comes before ends in
    code. So the scan decides what a cursor says about delimiters and comments. -/
theorem starts_iff_shows (text : List Char) :
    (∀ p, ((ofText .lisp text).Starts .opener p ↔ Scan.Shows text p (· ∈ Dialect.lisp.opening)) ∧
      ((ofText .lisp text).Starts .closer p ↔ Scan.Shows text p (· ∈ Dialect.lisp.closing)) ∧
      ((ofText .lisp text).Starts .comment p ↔ Scan.Shows text p (· = ';')) ∧
      ((ofText .lisp text).Starts .string p ↔ Scan.Shows text p (· = '"'))) ∧
    ∀ c : Cursor (ofText .lisp text),
      (c.onOpening = true ↔ Scan.Shows text c.pos (· ∈ Dialect.lisp.opening)) ∧
      (c.onClosing = true ↔ Scan.Shows text c.pos (· ∈ Dialect.lisp.closing)) ∧
      (c.onComment = true ↔ Scan.Shows text c.pos (· = ';')) := by
  have hstarts : ∀ k, k ≠ .atom → k ≠ .quote → ∀ p,
      ((ofText .lisp text).Starts k p ↔ Scan.Shows text p (Scan.Begins k)) :=
    fun k hatom hquote p => starts_iff_begins hatom hquote
  have hopener := hstarts .opener (by decide) (by decide)
  have hcloser := hstarts .closer (by decide) (by decide)
  have hcomment := hstarts .comment (by decide) (by decide)
  have hstring := hstarts .string (by decide) (by decide)
  refine ⟨fun p => ⟨hopener p, hcloser p, hcomment p, hstring p⟩, fun c => ⟨?_, ?_, ?_⟩⟩
  · exact starts_iff_onToken.symm.trans (hopener c.pos)
  · exact starts_iff_onToken.symm.trans (hcloser c.pos)
  · exact starts_iff_onToken.symm.trans (hcomment c.pos)

end Document

end SExprNav
