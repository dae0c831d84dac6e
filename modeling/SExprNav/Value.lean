/-!
# Plain values

Values of a data format: what may stand where a traversal, a number or a condition is expected.
`Value.kind` names the kind of a value in messages.
-/

namespace SExprNav

/-- A value of a data format. -/
inductive Value where
  | null
  | boolean (b : Bool)
  | integer (n : Int)
  /-- The number `mantissa / 10 ^ places`, written with a decimal point. -/
  | decimal (mantissa : Int) (places : Nat)
  | text (cs : List Char)
  | sequence (items : List Value)
  | record (fields : List (List Char × Value))
deriving Inhabited

namespace Value

/-- The kinds of values. -/
inductive Kind where
  | null | boolean | integer | decimal | text | sequence | record
deriving DecidableEq, Repr

/-- The word for a kind in messages. -/
def Kind.word : Kind → String
  | .null => "NoneType"
  | .boolean => "bool"
  | .integer => "int"
  | .decimal => "float"
  | .text => "str"
  | .sequence => "list"
  | .record => "dict"

/-- The kind of a value. -/
def kind : Value → Kind
  | .null => .null
  | .boolean _ => .boolean
  | .integer _ => .integer
  | .decimal _ _ => .decimal
  | .text _ => .text
  | .sequence _ => .sequence
  | .record _ => .record

end Value

end SExprNav
