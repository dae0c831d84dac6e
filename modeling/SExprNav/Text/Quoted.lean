import SExprNav.Text.Printable

/-!
# Quoted text

A text between quotes on one line. The quotes are single ones, unless the text holds a single quote
and no double one. The quote in use and the backslash are written with a backslash, tabs and line
ends as letters, and other unprintable characters by their code points in hexadecimal.
-/

namespace SExprNav.Text

namespace Quoted

/-- The quote that encloses a text. -/
def quoteFor (cs : List Char) : Char :=
  if cs.contains '\x27' && !cs.contains '\x22' then '\x22' else '\x27'

/-- The last `width` hexadecimal digits of a number, in lower case. -/
def hex : (width n : Nat) → List Char
  | 0, _ => []
  | width + 1, n => hex width (n / 16) ++ [Nat.digitChar (n % 16)]

/-- How a character is written between quotes. -/
def escape (quote c : Char) : List Char :=
  if c = quote ∨ c = '\\' then ['\\', c]
  else if c = '\t' then ['\\', 't']
  else if c = '\n' then ['\\', 'n']
  else if c = '\r' then ['\\', 'r']
  else if isPrintable c then [c]
  else if c.toNat ≤ 0xff then '\\' :: 'x' :: hex 2 c.toNat
  else if c.toNat ≤ 0xffff then '\\' :: 'u' :: hex 4 c.toNat
  else '\\' :: 'U' :: hex 8 c.toNat

/-- The text between quotes. -/
def encode (cs : List Char) : List Char :=
  let quote := quoteFor cs
  quote :: cs.flatMap (escape quote) ++ [quote]

end Quoted

/-- A text as it is shown in messages. -/
def quoted (cs : List Char) : String := String.ofList (Quoted.encode cs)

/-- The first characters of a text as it is shown in messages, quotes and escapes counted in. -/
def quotedUpTo (limit : Nat) (cs : List Char) : String :=
  String.ofList ((Quoted.encode cs).take limit)

end SExprNav.Text
