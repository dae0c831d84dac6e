import SExprNav.Forest
import SExprNav.Token

/-!
# Reading tokens into a forest

Tokens are read from the right. What has been read so far is a `Segments`: the forest up to the first
closing delimiter that has no partner yet, that delimiter, and what follows it. An opening delimiter
then takes the first forest for its children and the delimiter after it for its partner, and a closing
delimiter starts a new first forest. When all is read, the delimiters that are left close nothing
(`Segments.strays`), and dropping them joins the forests (`Segments.join`).

Quote marks belong to the expression after them, also across comments. A quote mark that has no
expression after it at its level is dropped.
-/

namespace SExprNav

/-- Forests separated by closing delimiters that have no partner. -/
inductive Segments where
  | last (forest : Forest)
  | cut (forest : Forest) (closer : Token) (rest : Segments)
deriving DecidableEq, Repr

namespace Segments

/-- Puts an atom or a string in front. -/
def addLeaf (start stop : Nat) : Segments → Segments
  | .last f => .last (.leaf start stop f)
  | .cut f closer rest => .cut (.leaf start stop f) closer rest

/-- Puts a list in front. -/
def addList (e : Extent) (children : Forest) : Segments → Segments
  | .last f => .last (.list e children f)
  | .cut f closer rest => .cut (.list e children f) closer rest

/-- Makes a list of the first forest, whose closing delimiter is the one after it. Without one, the
list reaches to the end of the text, at position `length`. -/
def enclose (length start opening : Nat) : Segments → Segments
  | .last f => .last (.list ⟨start, opening, length, length, false⟩ f .nil)
  | .cut f closer rest => rest.addList ⟨start, opening, closer.start, closer.stop, true⟩ f

/-- The forests joined, without the delimiters between them. -/
def join : Segments → Forest
  | .last f => f
  | .cut f _ rest => f ++ rest.join

/-- The closing delimiters that have no partner, in order. -/
def strays : Segments → List Token
  | .last _ => []
  | .cut _ closer rest => closer :: rest.strays

/-- Reads the tokens of a text with `length` characters. `mark` is where the quote marks start that
stand before the first token. -/
def ofTokens (length : Nat) : (mark : Option Nat) → List Token → Segments
  | _, [] => .last .nil
  | mark, t :: ts =>
    match t.kind with
    | .comment => ofTokens length mark ts
    | .quote => ofTokens length (some (mark.getD t.start)) ts
    | .closer => .cut .nil t (ofTokens length none ts)
    | .opener => (ofTokens length none ts).enclose length (mark.getD t.start) t.start
    | .atom => (ofTokens length none ts).addLeaf (mark.getD t.start) t.stop
    | .string => (ofTokens length none ts).addLeaf (mark.getD t.start) t.stop

end Segments

namespace Forest

/-- The forest of a text with `length` characters, read from its tokens. -/
def ofTokens (length : Nat) (tokens : List Token) : Forest :=
  (Segments.ofTokens length none tokens).join

end Forest

end SExprNav
