import SExprNav.Fault

/-!
# The written form of plain values

A value is written as in the source of a program, if the whole numbers in it can be written. There is
no limit on the digits of other numbers.
-/

namespace SExprNav.Value

/-- The digits after the decimal point: `places` of them, without the zeros at the end, but at least
one. -/
def fractionDigits (fraction places : Nat) : List Char :=
  let digits := Nat.toDigits 10 fraction
  let padded := List.replicate (places - digits.length) '0' ++ digits
  match (padded.reverse.dropWhile (· == '0')).reverse with
  | [] => ['0']
  | ds => ds

/-- A number written with a decimal point. -/
def renderDecimal (mantissa : Int) (places : Nat) : String :=
  let unit := Nat.pow 10 places
  let sign := if mantissa < 0 then "-" else ""
  sign ++ toString (mantissa.natAbs / unit) ++ "." ++
    String.ofList (fractionDigits (mantissa.natAbs % unit) places)

mutual

/-- The written form of a value. -/
def render (limit : Option Nat) : Value → Except Fault String
  | .null => pure "None"
  | .boolean true => pure "True"
  | .boolean false => pure "False"
  | .integer n => Numeral.write limit n
  | .decimal mantissa places => pure (renderDecimal mantissa places)
  | .text cs => pure (Text.quoted cs)
  | .sequence items => do
    let written ← renderItems limit items
    pure ("[" ++ ", ".intercalate written ++ "]")
  | .record fields => do
    let written ← renderFields limit fields
    pure ("\x7b" ++ ", ".intercalate written ++ "\x7d")

/-- The written forms of the items of a sequence. -/
def renderItems (limit : Option Nat) : List Value → Except Fault (List String)
  | [] => pure []
  | v :: vs => do
    let written ← render limit v
    let others ← renderItems limit vs
    pure (written :: others)

/-- The written forms of the fields of a record. -/
def renderFields (limit : Option Nat) : List (List Char × Value) → Except Fault (List String)
  | [] => pure []
  | (name, v) :: fs => do
    let written ← render limit v
    let others ← renderFields limit fs
    pure ((Text.quoted name ++ ": " ++ written) :: others)

end

end SExprNav.Value
