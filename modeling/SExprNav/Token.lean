/-!
# Tokens

A token is a stretch of the text with a kind. Positions count characters from the start of the text;
`start` is the position of the token's first character and `stop` the position after its last one.
-/

namespace SExprNav

/-- What a stretch of the text is. -/
inductive Token.Kind where
  | atom
  | string
  | comment
  /-- An opening delimiter. -/
  | opener
  /-- A closing delimiter. -/
  | closer
  /-- A mark such as `'` that belongs to the expression after it. -/
  | quote
deriving DecidableEq, Repr

/-- A stretch of the text, from `start` up to and not including `stop`. -/
structure Token where
  kind : Token.Kind
  start : Nat
  stop : Nat
deriving DecidableEq, Repr

namespace Token

/-- The word for a kind in the written form of a token. -/
def Kind.word : Kind → String
  | .atom => "atom"
  | .string => "string"
  | .comment => "comment"
  | .opener => "open"
  | .closer => "close"
  | .quote => "prefix"

/-- The written form of a token: its kind, then its two positions in brackets. -/
def render (t : Token) : String :=
  t.kind.word ++ "[" ++ toString t.start ++ ":" ++ toString t.stop ++ "]"

/-- The token moved `n` characters to the right. -/
def shift (n : Nat) (t : Token) : Token :=
  { t with start := t.start + n, stop := t.stop + n }

end Token

end SExprNav
