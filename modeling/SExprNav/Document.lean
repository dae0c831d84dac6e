import SExprNav.Fault
import SExprNav.Forest.Reader
import SExprNav.Token.Lexer

/-!
# Documents

A document is a text in a dialect, together with its tokens and its forest. The two are kept, not
computed anew for each question, and the fields `tokens_eq` and `forest_eq` say that they are those of
the text. `Document.open?` checks delimiters and comment marker and makes the dialect of them.
-/

namespace SExprNav

/-- A text with its tokens and its forest. -/
structure Document where
  dialect : Dialect
  text : List Char
  tokens : List Token := dialect.tokens text
  forest : Forest := Forest.ofTokens text.length tokens
  tokens_eq : tokens = dialect.tokens text := by rfl
  forest_eq : forest = Forest.ofTokens text.length tokens := by rfl

namespace Document

/-- The document of a text in a dialect. -/
def ofText (dialect : Dialect) (text : List Char) : Document where
  dialect := dialect
  text := text

/-- The number of characters of the text, which is also its last position. -/
def length (doc : Document) : Nat := doc.text.length

@[simp] theorem text_ofText (d : Dialect) (text : List Char) : (ofText d text).text = text := rfl

@[simp] theorem length_ofText (d : Dialect) (text : List Char) :
    (ofText d text).length = text.length := rfl

/-- A document is fixed by its dialect and its text. -/
theorem eq_ofText (doc : Document) : doc = ofText doc.dialect doc.text := by
  obtain ⟨dialect, text, tokens, forest, rfl, rfl⟩ := doc
  rfl

/-- The closing delimiters that close nothing, by position, in order. -/
def strays (doc : Document) : List Nat :=
  (Segments.ofTokens doc.length none doc.tokens).strays.map (·.start)

/-- The lists that nothing closes, by their opening delimiters, from the outside in. -/
def unclosed (doc : Document) : List Nat :=
  doc.forest.unclosed.map (·.opening)

end Document

/-- Splits a row of characters into those at its first, third, fifth place and so on, and those
between them. There is no such split of an odd number of characters. -/
def Dialect.pairs? : List Char → Option (List Char × List Char)
  | [] => some ([], [])
  | [_] => none
  | o :: c :: cs => (pairs? cs).map fun (os, cs) => (o :: os, c :: cs)

/-- The dialect with the given delimiters, an opening one before each closing one, and the given
comment marker. -/
def Dialect.ofDelimiters (delimiters marker : List Char) : Except Fault Dialect :=
  match Dialect.pairs? delimiters with
  | none => .error (.unpairedDelimiters delimiters)
  | some (opening, closing) =>
    if marker.isEmpty then .error .emptyMarker
    else .ok ⟨opening, closing, marker⟩

/-- The document of a text with the given delimiters and comment marker. -/
def Document.open? (text delimiters marker : List Char) : Except Fault Document :=
  (Dialect.ofDelimiters delimiters marker).map fun d => .ofText d text

end SExprNav
