import SExprNav.Text.Blank
import SExprNav.Token

/-!
# Cutting a text into tokens

A `Dialect` fixes the delimiters and the comment marker. `Dialect.lexeme` looks at a text that does
not start with a blank and says which token stands there and how many characters it takes;
`Dialect.tokensFrom` cuts a whole text by it.

The main lemmas are

* `tokensFrom_skip`   characters inside a token are passed over
* `lexeme_pos`        a token is never empty
* `lexeme_le`         a token never reaches beyond the text
-/

namespace SExprNav

open Text (isBlank)

/-- The delimiters and the comment marker of a family of texts. -/
structure Dialect where
  /-- The opening delimiters. -/
  opening : List Char
  /-- The closing delimiters. Any of them closes any opening delimiter. -/
  closing : List Char
  /-- What starts a comment that runs to the end of the line. -/
  marker : List Char
deriving DecidableEq, Repr

namespace Dialect

/-- Round, square and curly brackets; a semicolon starts a comment. -/
def lisp : Dialect where
  opening := ['(', '[', '{']
  closing := [')', ']', '}']
  marker := [';']

/-- Whether a character is a delimiter of either kind. -/
def isDelimiter (d : Dialect) (c : Char) : Bool :=
  d.opening.contains c || d.closing.contains c

/-- Whether the comment marker stands at the start of a text. -/
def marked (d : Dialect) (cs : List Char) : Bool :=
  d.marker.isPrefixOf cs

/-- The length of a comment: up to the end of the line. -/
def commentLength (cs : List Char) : Nat :=
  (cs.takeWhile (· != '\n')).length

/-- The length of the rest of a string, after the quote that opens it: up to and with the quote that
closes it, or to the end of the text. A backslash hides the character after it. -/
def stringLength : List Char → Nat
  | [] => 0
  | '"' :: _ => 1
  | '\\' :: [] => 1
  | '\\' :: _ :: cs => 2 + stringLength cs
  | _ :: cs => 1 + stringLength cs

/-- The length of an atom: up to a blank, a delimiter, a string or a comment, or to the end of the
text. A backslash hides the character after it. -/
def atomLength (d : Dialect) : List Char → Nat
  | [] => 0
  | '\\' :: [] => 1
  | '\\' :: _ :: cs => 2 + atomLength d cs
  | c :: cs =>
    if isBlank c || d.isDelimiter c || c == '"' || d.marked (c :: cs) then 0
    else 1 + atomLength d cs

/-- The length of the quote mark at the start of a text. A `#` is one only before an opening
delimiter. -/
def quoteLength? (d : Dialect) : List Char → Option Nat
  | ',' :: '@' :: _ => some 2
  | ',' :: _ => some 1
  | '\x60' :: _ => some 1
  | '\x27' :: _ => some 1
  | '#' :: c :: _ => if d.opening.contains c then some 1 else none
  | _ => none

/-- The token at the start of a text that does not start with a blank: its kind and its length. -/
def lexeme (d : Dialect) (c : Char) (cs : List Char) : Token.Kind × Nat :=
  if d.marked (c :: cs) then (.comment, commentLength (c :: cs))
  else if c == '"' then (.string, 1 + stringLength cs)
  else if d.opening.contains c then (.opener, 1)
  else if d.closing.contains c then (.closer, 1)
  else match d.quoteLength? (c :: cs) with
    | some n => (.quote, n)
    | none => (.atom, d.atomLength (c :: cs))

/-- The tokens of a text whose first character has position `i`, where the first `skip` characters
belong to a token already found. -/
def tokensFrom (d : Dialect) : (i skip : Nat) → List Char → List Token
  | _, _, [] => []
  | i, skip + 1, _ :: cs => d.tokensFrom (i + 1) skip cs
  | i, 0, c :: cs =>
    if isBlank c then d.tokensFrom (i + 1) 0 cs
    else
      let (kind, n) := d.lexeme c cs
      ⟨kind, i, i + n⟩ :: d.tokensFrom (i + 1) (n - 1) cs

/-- The tokens of a text, in order. -/
def tokens (d : Dialect) (text : List Char) : List Token :=
  d.tokensFrom 0 0 text

/-! ## Lengths and skipping -/

theorem stringLength_le (cs : List Char) : stringLength cs ≤ cs.length := by
  fun_induction stringLength cs <;> simp <;> omega

theorem atomLength_le (d : Dialect) (cs : List Char) : d.atomLength cs ≤ cs.length := by
  fun_induction atomLength d cs <;> simp <;> omega

theorem commentLength_le (cs : List Char) : commentLength cs ≤ cs.length :=
  (List.takeWhile_sublist _).length_le

theorem quoteLength?_le {d : Dialect} {cs : List Char} {n : Nat} (h : d.quoteLength? cs = some n) :
    n ≤ cs.length := by
  unfold quoteLength? at h
  split at h <;> simp at h <;> simp <;> omega

theorem quoteLength?_pos {d : Dialect} {cs : List Char} {n : Nat} (h : d.quoteLength? cs = some n) :
    0 < n := by
  unfold quoteLength? at h
  split at h <;> simp at h <;> omega

/-- A token never reaches beyond the text. -/
theorem lexeme_le (d : Dialect) (c : Char) (cs : List Char) :
    (d.lexeme c cs).2 ≤ cs.length + 1 := by
  unfold lexeme
  split
  · exact commentLength_le _
  split
  · have := stringLength_le cs
    simp; omega
  split
  · simp
  split
  · simp
  split
  · rename_i h
    exact quoteLength?_le h
  · exact atomLength_le d _

/-- A token is never empty. -/
theorem lexeme_pos (d : Dialect) {c : Char} (h : isBlank c = false) (cs : List Char) :
    0 < (d.lexeme c cs).2 := by
  unfold lexeme
  split
  · have hc : (c != '\n') = true := by
      simp only [bne_iff_ne, ne_eq]
      rintro rfl
      simp [Text.isBlank_newline] at h
    simp [commentLength, List.takeWhile, hc]
  rename_i hm
  split
  · show 0 < 1 + stringLength cs
    omega
  rename_i hs
  split
  · simp
  rename_i ho
  split
  · simp
  rename_i hd
  split
  · rename_i hq
    exact quoteLength?_pos hq
  · unfold atomLength
    split
    · simp_all
    · simp
    · omega
    · obtain ⟨rfl, rfl⟩ := List.cons.inj ‹_ :: _ = _ :: _›
      rw [if_neg (by simp_all [isDelimiter])]
      omega

/-- Characters inside a token are passed over. -/
theorem tokensFrom_skip (d : Dialect) (i n : Nat) (cs : List Char) :
    d.tokensFrom i n cs = d.tokensFrom (i + n) 0 (cs.drop n) := by
  induction n generalizing i cs with
  | zero => simp
  | succ n ih =>
    cases cs with
    | nil => simp [tokensFrom]
    | cons c cs => simp only [tokensFrom, List.drop_succ_cons, ih]; congr 1; omega

end Dialect

end SExprNav
